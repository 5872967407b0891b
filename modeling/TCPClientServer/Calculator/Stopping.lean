import TCPClientServer.Calculator.Threads

/-!
# When the client stops

Without `keep_alive` the client returns when it finds the queue empty and then the stream no longer good.
The scraper sets `eof` when it reads the last line, before it has parsed and pushed what the line holds, and
it can push between the two looks of the client. What it pushes then is never sent.

* `ScraperPc.Quiet` : the scraper holds no datum;
* `Settled` : when the client stops, the queue is still empty and the scraper quiet;
* `drained_run` : a client that has returned in a settled state has left nothing behind;
* `no_datum_lost`.
-/

namespace TCPClientServer.Calculator
open TCPClientServer.Basis TCPClientServer.Io TCPClientServer.Client TCPClientServer.Server

section Stopping
variable (clientId : Bytes)

/-- The scraper has no datum to push, and no line that holds one. -/
def ScraperPc.Quiet : ScraperPc → Prop
  | loopTest | stopped => True
  | reading u buffer | parsing u buffer => buffer ≠ [] → ∀ d, parseDatum u clientId buffer ≠ .ok d
  | pushing _ => False

instance : DecidablePred (ScraperPc.Quiet clientId)
  | .loopTest | .stopped => isTrue trivial
  | .reading u buffer | .parsing u buffer =>
    decidable_of_iff (buffer ≠ [] → (parseDatum u clientId buffer).toOption = none) (by
      cases h : parseDatum u clientId buffer with
      | error e => simp [ScraperPc.Quiet, h, Except.toOption]
      | ok d => simp [ScraperPc.Quiet, h, Except.toOption])
  | .pushing _ => isFalse id

namespace Threads

/-- When the step is the one in which the client finds that the stream is not good, the queue is still empty
and the scraper holds no datum. -/
def Settled (s : Threads) (a : Action) : Prop :=
  match s.client.pc, a with
  | .testScraper _, .client .internal => s.stream.good = false → s.client.queue = [] ∧ s.scraper.Quiet clientId
  | _, _ => True

instance (s : Threads) (a : Action) : Decidable (s.Settled clientId a) := by
  unfold Settled
  split <;> infer_instance

/-- Nothing is left to send, and the scraper adds nothing. -/
structure Drained (s : Threads) : Prop where
  queue : s.client.queue = []
  good : s.stream.good = false
  quiet : s.scraper.Quiet clientId

variable {clientId} {s s' : Threads} {a : Action} {u : Locals}

/-- On a stream that is not good a quiet scraper stays quiet. -/
theorem drained_scrape (h : s.Drained clientId) (hscrapes : Scrapes clientId s u s') :
    s'.Drained clientId ∧ s'.client = s.client := by
  have hquiet := h.quiet
  cases hscrapes with
  | start hpc hok => exact ⟨⟨h.queue, h.good, fun hne => absurd rfl hne⟩, rfl⟩
  | stop hpc hok => exact ⟨⟨h.queue, h.good, trivial⟩, rfl⟩
  | line v hpc hgood => simp [h.good] at hgood
  | read v buffer hpc hend =>
    rw [hpc] at hquiet
    exact ⟨⟨h.queue, h.good, hquiet⟩, rfl⟩
  | corrupted v buffer hpc hbad => exact ⟨⟨h.queue, h.good, trivial⟩, rfl⟩
  | skip v buffer hpc hbad hnone => exact ⟨⟨h.queue, h.good, trivial⟩, rfl⟩
  | parsed v buffer hpc hbad hne d hd =>
    rw [hpc] at hquiet
    exact absurd hd (hquiet hne d)
  | push d hpc =>
    rw [hpc] at hquiet
    exact hquiet.elim

/-- The client returns in one way only: it finds that the stream is not good. -/
theorem returned_of_moves {scraperGood : Bool} {t t' : Client.Thread Padding ClientData ServerData}
    {m : Move ServerData} (h : Thread.Moves ClientActions false scraperGood t m t') (hpc : t'.pc = .returned) :
    ∃ connectionOk, t.pc = .testScraper connectionOk ∧ m = .internal ∧ scraperGood = false ∧ t'.queue = t.queue := by
  cases h with
  | testedScraper connectionOk hpc' =>
    cases scraperGood with
    | true => cases connectionOk <;> simp [afterTest] at hpc
    | false => exact ⟨connectionOk, hpc', rfl, rfl, rfl⟩
  | testedNonempty connectionOk hpc' hq => cases connectionOk <;> simp [afterTest] at hpc
  | sent d hpc' result =>
    unfold Thread.onSent at hpc
    split at hpc
    · simp at hpc
    split at hpc
    · simp at hpc
    · simp at hpc
    split at hpc <;> simp at hpc
  | _ => simp at hpc

/-- A client that has returned takes no step. -/
theorem next_returned {keepAlive scraperGood : Bool} {t : Client.Thread Padding ClientData ServerData}
    (hpc : t.pc = .returned) (m : Move ServerData) : t.next ClientActions keepAlive scraperGood m = none := by
  unfold Thread.next
  split <;> simp_all

/-- **Every settled step keeps it so that a client which has returned has left nothing behind.** -/
theorem drained_step (h : s.client.pc = .returned → s.Drained clientId) (hsettled : s.Settled clientId a)
    (hstep : s.step clientId false a = some s') : s'.client.pc = .returned → s'.Drained clientId := by
  intro hpc
  cases a with
  | scrape u =>
    have hscrapes := scrapes_iff.mp hstep
    by_cases hreturned : s.client.pc = .returned
    · exact (drained_scrape (h hreturned) hscrapes).1
    · cases hscrapes <;> exact absurd hpc hreturned
  | client m =>
    obtain ⟨client, hnext, rfl⟩ := Option.map_eq_some_iff.mp hstep
    obtain ⟨connectionOk, hpc', rfl, hgood, hqueue⟩ := returned_of_moves (Thread.moves_of_next hnext) hpc
    simp only [Settled, hpc'] at hsettled
    obtain ⟨hempty, hquiet⟩ := hsettled hgood
    exact ⟨hqueue.trans hempty, hgood, hquiet⟩

theorem drained_run {as : List Action} {is : IStream} {padding : Padding}
    (h : Always (StepOf (step clientId false)) (Settled clientId) (init is padding) as)
    (hrun : Runs (StepOf (step clientId false)) (init is padding) as s) :
    s.client.pc = .returned → s.Drained clientId := by
  exact hrun.invariant_of_always (I := fun _ s => s.client.pc = .returned → s.Drained clientId) h nofun
    fun _ _ _ _ hinv hsettled hstep => drained_step hinv hsettled hstep

/-- Whatever runs on after the client has returned, the client and its queue stay as they are. -/
theorem run_of_drained {as : List Action} (hrun : Runs (StepOf (step clientId false)) s as s')
    (hpc : s.client.pc = .returned) (h : s.Drained clientId) : s'.client = s.client ∧ s'.Drained clientId := by
  refine hrun.invariant (I := fun _ s' => s'.client = s.client ∧ s'.Drained clientId) ⟨rfl, h⟩ ?_
  rintro es t a t' - ⟨hclient, hdrained⟩ hstep
  cases a with
  | scrape u =>
    obtain ⟨hdrained', hclient'⟩ := drained_scrape hdrained (scrapes_iff.mp hstep)
    exact ⟨hclient'.trans hclient, hdrained'⟩
  | client m =>
    obtain ⟨client, hnext, -⟩ := Option.map_eq_some_iff.mp hstep
    rw [next_returned (hclient ▸ hpc)] at hnext
    cases hnext

end Threads

open Threads

/-- **No scraped datum is lost when the client stops**, in every run in which each stop is a settled one:
what the scraper has pushed when the client has returned, and what it pushes if it runs on, is what
`strategy_.response` has been called for. -/
theorem no_datum_lost {is : IStream} {padding : Padding} {as as' : List Action} {s s' : Threads}
    (h : Always (StepOf (step clientId false)) (Settled clientId) (init is padding) as)
    (hrun : Runs (StepOf (step clientId false)) (init is padding) as s) (hpc : s.client.pc = .returned)
    (hrun' : Runs (StepOf (step clientId false)) s as' s') :
    s'.client.pushed = s.client.answered.map Prod.fst := by
  obtain ⟨hclient, hdrained⟩ := run_of_drained hrun' hpc (drained_run h hrun hpc)
  have hdisciplined := disciplined_run hrun' (disciplined_run hrun (disciplined_init is padding))
  rw [hdisciplined.pushed_queue (by rw [hclient, hpc]; simp), hdrained.queue, List.append_nil, hclient]

/-- A scraper that is not quiet pushes a datum when it runs on. -/
theorem alone_of_not_quiet {s : Threads} (hgood : s.stream.good = false) (hbad : s.stream.bad = false)
    (h : ¬ s.scraper.Quiet clientId) : ∃ d s', Alone clientId false s s' ∧ s'.client = s.client.push d := by
  have hpush : ∀ d, Alone clientId false { s with scraper := .pushing d }
      { s with scraper := .loopTest, client := s.client.push d } := fun d => .scrapes .zero (.push d rfl)
  have hparse : ∀ u buffer, ¬ (buffer ≠ [] → ∀ d, parseDatum u clientId buffer ≠ .ok d) →
      ∃ d s', Alone clientId false { s with scraper := .parsing u buffer } s' ∧ s'.client = s.client.push d := by
    intro u buffer hquiet
    push Not at hquiet
    obtain ⟨hne, d, hd⟩ := hquiet
    have hparsed : Alone clientId false { s with scraper := .parsing u buffer } { s with scraper := .pushing d } :=
      .scrapes .zero (.parsed (s := { s with scraper := .parsing u buffer }) u buffer rfl hbad hne d hd)
    exact ⟨d, _, hparsed.trans (hpush d), rfl⟩
  obtain ⟨stream, scraper, client⟩ := s
  cases scraper with
  | loopTest => exact absurd trivial h
  | stopped => exact absurd trivial h
  | pushing d => exact ⟨d, _, hpush d, rfl⟩
  | parsing u buffer => exact hparse u buffer h
  | reading u buffer =>
    obtain ⟨d, s', hrun, hs'⟩ := hparse u buffer h
    have hread : Alone clientId false ⟨stream, .reading u buffer, client⟩ ⟨stream, .parsing u buffer, client⟩ :=
      .scrapes .zero (.read u buffer rfl fun hgood' => by simp [hgood] at hgood')
    exact ⟨d, s', hread.trans hrun, hs'⟩

/-- **A stop that is not settled loses a datum**: the client returns, and the queue is not empty or what the
scraper holds is pushed behind its back. -/
theorem datum_lost {s : Threads} (h : s.client.Disciplined) (hbad : s.stream.bad = false)
    (hsettled : ¬ s.Settled clientId (.client .internal)) :
    ∃ as s', Runs (StepOf (step clientId false)) s (.client .internal :: as) s' ∧ s'.client.pc = .returned ∧
      s'.client.pushed ≠ s'.client.answered.map Prod.fst := by
  unfold Settled at hsettled
  split at hsettled
  case h_2 => exact absurd trivial hsettled
  case h_1 connectionOk _ hpc _ =>
    push Not at hsettled
    obtain ⟨hgood, hleft⟩ := hsettled
    let s₁ : Threads := { s with client := { s.client with pc := .returned } }
    have hreturn : StepOf (step clientId false) s (.client .internal) s₁ := by
      simp [StepOf, step, Thread.next, hpc, hgood, afterTest, s₁]
    have hpushed := h.pushed_queue (by simp [hpc])
    by_cases hqueue : s.client.queue = []
    · obtain ⟨d, s', ⟨us, hrun⟩, hs'⟩ := alone_of_not_quiet clientId (s := s₁) hgood hbad (hleft hqueue)
      refine ⟨us.map .scrape, s', runs_cons_iff.mpr ⟨s₁, hreturn, hrun⟩, ?_, ?_⟩
      · rw [hs']
        rfl
      · rw [hs']
        simp [Thread.push, s₁, hpushed, hqueue]
    · exact ⟨[], s₁, .single hreturn, rfl, by simp [s₁, hpushed, hqueue]⟩

end Stopping

/-! ## A last line -/

section Example
open Threads

def sumAnswer : Response ServerData := ⟨.ok, 0, .literal 1, .finite 5, .replicate 0⟩

/-- The sum is scraped to the end of the input, then sent and answered, and the client returns. -/
def answeredSum : List Action :=
  List.replicate 10 (.scrape .zero) ++ [.client (.opened (.ok ())), .client .internal, .client .internal,
    .client (.sent (.ok (none, sumAnswer))), .client .internal, .client .internal, .client .internal, .client .internal]

/-- The last line is read, and the client returns before it is parsed. -/
def stoppedEarly : List Action :=
  List.replicate 2 (.scrape .zero) ++ [.client (.opened (.ok ()))] ++ List.replicate 4 (.client .internal)

theorem no_datum_lost_sum :
    ∃ s, Runs (StepOf (step [] false)) (init (.ofText (sumLine ++ [newline])) (.replicate 0)) answeredSum s ∧
      s.client.pushed = s.client.answered.map Prod.fst := by
  have hplay : (play (guarded (step [] false) (Settled [])) (init (.ofText (sumLine ++ [newline])) (.replicate 0))
      answeredSum).any (fun s => decide (s.client.pc = .returned)) = true := by decide +kernel
  obtain ⟨s, hs, hpc⟩ := (Option.any_eq_true _ _).mp hplay
  obtain ⟨hrun, halways⟩ := runs_of_play_guarded hs
  exact ⟨s, hrun, no_datum_lost [] halways hrun (of_decide_eq_true hpc) (.nil s)⟩

/-- A datum on a last line without a line break is lost when the client looks between `getline` and `push`. -/
theorem datum_lost_at_end :
    ¬ ∀ (is : IStream) (padding : Padding) (as as' : List Action) (s s' : Threads),
      Runs (StepOf (step [] false)) (init is padding) as s → s.client.pc = .returned →
      Runs (StepOf (step [] false)) s as' s' → s'.client.pushed = s.client.answered.map Prod.fst := by
  intro h
  have hplay : (play (step [] false) (init (.ofText sumLine) (.replicate 0)) stoppedEarly).any (fun s =>
      decide (s.client.pc = .returned) && (play (step [] false) s (List.replicate 3 (.scrape .zero))).any fun s' =>
        decide (s'.client.pushed ≠ s.client.answered.map Prod.fst)) = true := by decide +kernel
  obtain ⟨s, hs, hlost⟩ := (Option.any_eq_true _ _).mp hplay
  obtain ⟨hpc, hlost⟩ := Bool.and_eq_true _ _ ▸ hlost
  obtain ⟨s', hs', hne⟩ := (Option.any_eq_true _ _).mp hlost
  exact of_decide_eq_true hne (h _ _ _ _ s s' (runs_of_play hs) (of_decide_eq_true hpc) (runs_of_play hs'))

end Example

end TCPClientServer.Calculator
