import TCPClientServer.Calculator.Reprinting
import TCPClientServer.Client.Calls
import TCPClientServer.System.Completion

/-!
# What the user sees

The strategy of the calculator writes a text for every request and for every response. What comes out in a run is
settled by the input: for each datum its request, once or again, and then the response to it.

* `State.calls` : the calls of the strategy in a step; `told_step`;
* `transcript_of_input`;
* `callText` : what the strategy writes; `written_of_data` : what is written in a run.
-/

namespace TCPClientServer.System
open TCPClientServer.Basis TCPClientServer.Io TCPClientServer.Server TCPClientServer.Client TCPClientServer.Calculator

section Steps
variable {f : Filter} {cd : Codec ClientData} {cr : Codec (Response ServerData)} {clientId : Bytes}
  {keepAlive secured : Bool} {s s' : State} {l : Label} {cs : List (Call ClientData ServerData)}

variable (f cr) in
def State.calls (s : State) : Label → List (Call ClientData ServerData)
  | .thread (.client m) => s.threads.client.calls m
  | .read fault =>
    match s.awaiting, newest s.channels with
    | some fresh, some (_, ch) =>
      match s.connection.read f cr fresh ⟨[ch.atClient], fault⟩ with
      | .error _ => []
      | .ok r => s.threads.client.calls (.sent (.ok (r.ec, r.value)))
    | _, _ => []
  | _ => []

theorem told_client {m : Move ServerData} {threads : Threads} (hd : s.threads.client.Disciplined)
    (h : s.threads.client.Told cs) (hthreads : s.threads.step clientId keepAlive (.client m) = some threads)
    (hassertion : ∀ r, threads.client.pc ≠ .halted (.assertion r)) :
    threads.client.Told (cs ++ s.threads.client.calls m) := by
  obtain ⟨client, hnext, rfl⟩ := Option.map_eq_some_iff.mp hthreads
  exact Thread.told_moves hd h (Thread.moves_of_next hnext) hassertion

theorem told_unanswered {m : Move ServerData} {threads : Threads} (hd : s.threads.client.Disciplined)
    (h : s.threads.client.Told cs) (hthreads : s.threads.step clientId keepAlive (.client m) = some threads)
    (hassertion : ∀ r, threads.client.pc ≠ .halted (.assertion r)) (hcalls : s.threads.client.calls m = []) :
    threads.client.Told cs := by
  have htold := told_client hd h hthreads hassertion
  rwa [hcalls, List.append_nil] at htold

/-- **Every step tells the strategy what it should.** -/
theorem told_step (hd : s.threads.client.Disciplined) (h : s.threads.client.Told cs)
    (hstep : s.step f cd cr clientId keepAlive secured l = some s')
    (hassertion : ∀ r, s'.threads.client.pc ≠ .halted (.assertion r)) :
    s'.threads.client.Told (cs ++ s.calls f cr l) := by
  cases l with
  | thread a =>
    rw [State.step] at hstep
    split at hstep
    · obtain ⟨threads, hthreads, rfl⟩ := State.follow_eq_some hstep
      cases a with
      | client m => exact told_client hd h hthreads hassertion
      | scrape u =>
        rw [State.calls, List.append_nil]
        · rcases Threads.client_of_scrapes (Threads.scrapes_iff.mp hthreads) with hclient | ⟨d, hclient⟩
          · rwa [← hclient] at h
          · have hpush := Thread.told_push hd h d
            rwa [← hclient] at hpush
        · simp
        · simp
    · cases hstep
  | opened =>
    obtain ⟨threads, hthreads, rfl⟩ := State.follow_eq_some hstep
    rw [show s.calls f cr .opened = [] from rfl, List.append_nil]
    exact told_unanswered hd h hthreads hassertion (by simp [Thread.calls])
  | written k fresh =>
    rw [show s.calls f cr (.written k fresh) = [] from rfl, List.append_nil]
    rw [State.step] at hstep
    split at hstep
    · dsimp only at hstep
      split at hstep
      · cases hstep
        exact h
      · obtain ⟨threads, hthreads, rfl⟩ := State.follow_eq_some hstep
        exact told_unanswered (s := s) hd h hthreads hassertion (Thread.calls_fault _ _ _)
    · cases hstep
  | read fault =>
    rw [State.step] at hstep
    split at hstep
    · rename_i fresh j ch hawaiting hnewest
      split at hstep
      · rename_i e hread
        obtain ⟨threads, hthreads, rfl⟩ := State.follow_eq_some hstep
        simp only [State.calls, hawaiting, hnewest, hread, List.append_nil]
        exact told_unanswered (s := s) hd h hthreads hassertion (Thread.calls_thrown _ _)
      · rename_i r hread
        obtain ⟨threads, hthreads, rfl⟩ := State.follow_eq_some hstep
        simp only [State.calls, hawaiting, hnewest, hread]
        exact told_client (s := s) hd h hthreads hassertion
    · cases hstep
  | toServer k n =>
    obtain ⟨ch, -, rfl⟩ := Option.map_eq_some_iff.mp hstep
    rwa [show s.calls f cr (.toServer k n) = [] from rfl, List.append_nil]
  | toClient k n =>
    obtain ⟨ch, -, rfl⟩ := Option.map_eq_some_iff.mp hstep
    rwa [show s.calls f cr (.toClient k n) = [] from rfl, List.append_nil]
  | accepted k i cdata response =>
    rw [show s.calls f cr (.accepted k i cdata response) = [] from rfl, List.append_nil]
    obtain ⟨ch, -, hstep⟩ := Option.bind_eq_some_iff.mp hstep
    split at hstep
    · split at hstep
      · cases hstep
      · cases hstep
        exact h
    · cases hstep
  | completed k i c =>
    rw [show s.calls f cr (.completed k i c) = [] from rfl, List.append_nil]
    obtain ⟨ch, -, hstep⟩ := Option.bind_eq_some_iff.mp hstep
    split at hstep
    · split at hstep <;> (cases hstep; exact h)
    · cases hstep
  | other e =>
    rw [show s.calls f cr (.other e) = [] from rfl, List.append_nil]
    rw [State.step] at hstep
    split at hstep
    · split at hstep <;> (cases hstep; exact h)
    · cases hstep

end Steps

theorem told_init (is : IStream) (padding : Padding) (connection : Connection) (cdata : ClientData)
    (response : Response ServerData) : (State.init is padding connection cdata response).threads.client.Told [] :=
  ⟨[], [], .nil, rfl, by simp, by simp [State.init, Threads.init]⟩

/-! ## What is written -/

def callText (timeText : Int → Bytes) : Call ClientData ServerData → Bytes
  | .request d => requestText d
  | .response r => responseText timeText r

/-- What is written about a datum that is answered: its request `n + 1` times, and the response. -/
def answeredText (timeText : Int → Bytes) (n : Nat) (d : ClientData) (r : Response ServerData) : Bytes :=
  (List.replicate (n + 1) (requestText d)).flatten ++ responseText timeText r

section Text
variable {α : Type} {K : α → ClientData → Prop} {P : α → Bytes → Prop} {request : α → Bytes} {timeText : Int → Bytes}
  {as : List α} {ds : List ClientData}

/-- **Exchanges are written in pieces**, one for each thing that is known of a datum. -/
theorem pieces_of_exchanged {xs : List (ClientData × Response ServerData)} {calls : List (Call ClientData ServerData)}
    (hpiece : ∀ a d r n, K a d → Answers d r → P a (answeredText timeText n d r)) (hexchanged : Exchanged xs calls)
    (hanswers : ∀ p ∈ xs, Answers p.1 p.2) (has : List.Forall₂ K as (xs.map Prod.fst)) :
    ∃ pieces, List.Forall₂ P as pieces ∧ calls.flatMap (callText timeText) = pieces.flatten := by
  induction hexchanged generalizing as with
  | nil =>
    cases has
    exact ⟨[], .nil, rfl⟩
  | @snoc xs calls hexchanged d r n ih =>
    rw [List.map_append] at has
    have hbefore := List.forall₂_take_append _ _ _ has
    have hlast := List.forall₂_drop_append _ _ _ has
    obtain ⟨a, later, ha, hnone, hsplit⟩ := List.forall₂_cons_right_iff.mp hlast
    rw [List.forall₂_nil_right_iff.mp hnone] at hsplit
    obtain ⟨pieces, hpieces, htext⟩ := ih (fun p hp => hanswers p (List.mem_append_left _ hp)) hbefore
    have hr := hanswers (d, r) (by simp)
    refine ⟨pieces ++ [answeredText timeText n d r], ?_, ?_⟩
    · rw [← List.take_append_drop (xs.map Prod.fst).length as, hsplit]
      exact List.rel_append hpieces (.cons (hpiece a d r n ha hr) .nil)
    · simp [htext, callText, answeredText, List.flatMap_replicate]

theorem exists_known (h : List.Forall₂ K as ds) {k : Nat} {d : ClientData} (hd : ds[k]? = some d) :
    ∃ a, as[k]? = some a ∧ K a d := by
  induction h generalizing k with
  | nil => simp at hd
  | cons ha _ ih =>
    cases k with
    | zero =>
      rw [List.getElem?_cons_zero] at hd
      cases hd
      exact ⟨_, rfl, ha⟩
    | succ k => exact ih hd

variable (timeText) in
theorem exists_again (hrequest : ∀ a d, K a d → requestText d = request a) (h : List.Forall₂ K as ds) {k : Nat}
    {sent : List (Call ClientData ServerData)} (hsent : ∀ c ∈ sent, ∃ d, ds[k]? = some d ∧ c = .request d) :
    ∃ again : List α, sent.flatMap (callText timeText) = again.flatMap request ∧ (∀ a ∈ again, as[k]? = some a) ∧
      (sent = [] → again = []) := by
  induction sent with
  | nil => exact ⟨[], rfl, by simp, fun _ => rfl⟩
  | cons c sent ih =>
    obtain ⟨again, htext, hagain, -⟩ := ih fun c hc => hsent c (List.mem_cons_of_mem _ hc)
    obtain ⟨d, hd, rfl⟩ := hsent c List.mem_cons_self
    obtain ⟨a, ha, hK⟩ := exists_known h hd
    refine ⟨a :: again, ?_, List.forall_mem_cons.mpr ⟨ha, hagain⟩, by simp⟩
    rw [List.flatMap_cons, List.flatMap_cons, htext, callText, hrequest a d hK]

end Text

section Calculator
variable {z : Zlib} {compressed : Bool} {ar : TextArchive}

theorem told_run (hz : compressed = true → z.Lawful) (har : ar.Lawful) {clientId : Bytes} {is : IStream}
    {keepAlive secured : Bool} {padding : Padding} {connection : Connection} {cdata : ClientData}
    {response : Response ServerData} {ls : List Label} {s : State}
    (hrun : Runs (StepOf (State.step (createFilter z compressed) (requestCodec ar) (responseCodec ar) clientId keepAlive
      secured)) (.init is padding connection cdata response) ls s) :
    Invariant (createFilter z compressed) (requestCodec ar) (responseCodec ar) s ∧ s.threads.client.Told
      (outputs (State.step (createFilter z compressed) (requestCodec ar) (responseCodec ar) clientId keepAlive secured)
        (State.calls (createFilter z compressed) (responseCodec ar)) (.init is padding connection cdata response) ls) := by
  have hreq : ∀ d, ProperRequest d → Sound (createFilter z compressed) (requestCodec ar) d :=
    fun d hd => request_sound hz har hd.1 hd.2
  have hresp : ∀ d r, Replied (createFilter z compressed) (responseCodec ar) serverAction d r →
      Sound (createFilter z compressed) (responseCodec ar) r := fun d r hr => sound_of_replied hz har hr
  refine hrun.outputs_invariant (State.calls (createFilter z compressed) (responseCodec ar))
    (I := fun cs u => Invariant (createFilter z compressed) (requestCodec ar) (responseCodec ar) u ∧
      u.threads.client.Told cs) ⟨invariant_init _ _ _ _ _, told_init _ _ _ _ _⟩ fun cs u l u' ⟨hinv, h⟩ hstep => ?_
  have hinv' := invariant_steps hreq hresp hinv (State.steps_of_step hstep)
  exact ⟨hinv', told_step hinv.disciplined h hstep hinv'.agreed.assertion⟩

/-- **The transcript of the input.** In every run, the strategy is told of each datum answered, once or more often,
and then of the correct response to it, in the order of the data in the input; and in the end perhaps of the datum
that comes next. When the client has returned, after settled stops only, these are all data of the input. -/
theorem transcript_of_input (hz : compressed = true → z.Lawful) (har : ar.Lawful) {clientId t : Bytes}
    {keepAlive secured : Bool} {padding : Padding} {connection : Connection} {cdata : ClientData}
    {response : Response ServerData} {ls : List Label} {s : State}
    (hrun : Runs (StepOf (State.step (createFilter z compressed) (requestCodec ar) (responseCodec ar) clientId keepAlive
      secured)) (.init (.ofText t) padding connection cdata response) ls s) :
    ∃ us before sent,
      outputs (State.step (createFilter z compressed) (requestCodec ar) (responseCodec ar) clientId keepAlive secured)
        (State.calls (createFilter z compressed) (responseCodec ar))
          (.init (.ofText t) padding connection cdata response) ls = before ++ sent ∧
      Exchanged s.threads.client.answered before ∧ (∀ p ∈ s.threads.client.answered, Answers p.1 p.2) ∧
      s.threads.client.answered.map Prod.fst <+: dataIn clientId us (readable t) ∧
      (∀ c ∈ sent, ∃ d, (dataIn clientId us (readable t))[s.threads.client.answered.length]? = some d ∧
        c = .request d) ∧
      (keepAlive = false → s.threads.client.pc = .returned →
        Always (StepOf (State.step (createFilter z compressed) (requestCodec ar) (responseCodec ar) clientId keepAlive
          secured)) (State.Settled clientId) (.init (.ofText t) padding connection cdata response) ls →
        sent = [] ∧ s.threads.client.answered.map Prod.fst = dataIn clientId us (readable t)) := by
  obtain ⟨hinv, htold⟩ := told_run hz har hrun
  obtain ⟨us, hprefix, hall⟩ := (scraping_run hrun).pushed
  obtain ⟨before, sent, hsplit, hexchanged, hanswered, hsent, hend⟩ := htold.data hinv.disciplined hprefix
  refine ⟨us, before, sent, hsplit, hexchanged, hinv.agreed.answers, hanswered, hsent, ?_⟩
  rintro rfl hpc hsettled
  have hdrained := drained_run hrun hsettled hpc
  exact hend hpc hdrained.queue (hall hdrained.good hdrained.quiet)

theorem transcript_of_input_resent :
    ∃ s us before, Runs (StepOf (State.step (createFilter ⟨id, .ok⟩ false) (requestCodec plainArchive)
        (responseCodec plainArchive) [ch 'a'] false false))
          (.init (.ofText (sumLine ++ [newline])) (.replicate 0) .fresh blankRequest blankResponse) completedSum s ∧
      outputs (State.step (createFilter ⟨id, .ok⟩ false) (requestCodec plainArchive) (responseCodec plainArchive)
        [ch 'a'] false false) (State.calls (createFilter ⟨id, .ok⟩ false) (responseCodec plainArchive))
          (.init (.ofText (sumLine ++ [newline])) (.replicate 0) .fresh blankRequest blankResponse) completedSum =
        before ∧
      before.length = 3 ∧ Exchanged s.threads.client.answered before ∧
      s.threads.client.answered.map Prod.fst = dataIn [ch 'a'] us (readable (sumLine ++ [newline])) ∧
      ∀ p ∈ s.threads.client.answered, Answers p.1 p.2 := by
  have hplay : (play (guarded (State.step (createFilter ⟨id, .ok⟩ false) (requestCodec plainArchive)
      (responseCodec plainArchive) [ch 'a'] false false) (State.Settled [ch 'a']))
        (.init (.ofText (sumLine ++ [newline])) (.replicate 0) .fresh blankRequest blankResponse) completedSum).any
          (fun s => decide (s.threads.client.pc = .returned)) = true := by
    decide +kernel
  have hthree : (outputs (State.step (createFilter ⟨id, .ok⟩ false) (requestCodec plainArchive)
      (responseCodec plainArchive) [ch 'a'] false false) (State.calls (createFilter ⟨id, .ok⟩ false)
        (responseCodec plainArchive)) (.init (.ofText (sumLine ++ [newline])) (.replicate 0) .fresh blankRequest
          blankResponse) completedSum).length = 3 := by
    decide +kernel
  obtain ⟨s, hs, hpc⟩ := (Option.any_eq_true _ _).mp hplay
  obtain ⟨hrun, hsettled⟩ := runs_of_play_guarded hs
  obtain ⟨us, before, sent, hsplit, hexchanged, hanswers, -, -, hall⟩ :=
    transcript_of_input (by simp) plainArchive_lawful hrun
  obtain ⟨rfl, hdata⟩ := hall rfl (of_decide_eq_true hpc) hsettled
  rw [List.append_nil] at hsplit
  exact ⟨s, us, before, hrun, hsplit, hsplit ▸ hthree, hexchanged, hdata, hanswers⟩

/-- **What is written in a run**, from what is known of the data in the input: the pieces about the data that are
answered, in their order, and perhaps the request of the one that comes next; when the client has returned, after
settled stops only, the pieces about all of them. -/
theorem written_of_data {α : Type} {K : α → ClientData → Prop} {P : α → Bytes → Prop} {request : α → Bytes}
    {timeText : Int → Bytes} {as : List α} (hz : compressed = true → z.Lawful) (har : ar.Lawful) {clientId t : Bytes}
    (hrequest : ∀ a d, K a d → requestText d = request a)
    (hpiece : ∀ a d r n, K a d → Answers d r → P a (answeredText timeText n d r))
    (hdata : ∀ us, List.Forall₂ K as (dataIn clientId us (readable t))) {keepAlive secured : Bool} {padding : Padding}
    {connection : Connection} {cdata : ClientData} {response : Response ServerData} {ls : List Label} {s : State}
    (hrun : Runs (StepOf (State.step (createFilter z compressed) (requestCodec ar) (responseCodec ar) clientId keepAlive
      secured)) (.init (.ofText t) padding connection cdata response) ls s) :
    ∃ pieces again,
      (outputs (State.step (createFilter z compressed) (requestCodec ar) (responseCodec ar) clientId keepAlive secured)
        (State.calls (createFilter z compressed) (responseCodec ar))
          (.init (.ofText t) padding connection cdata response) ls).flatMap (callText timeText) =
            pieces.flatten ++ again.flatMap request ∧
      List.Forall₂ P (as.take pieces.length) pieces ∧ (∀ a ∈ again, as[pieces.length]? = some a) ∧
      (keepAlive = false → s.threads.client.pc = .returned →
        Always (StepOf (State.step (createFilter z compressed) (requestCodec ar) (responseCodec ar) clientId keepAlive
          secured)) (State.Settled clientId) (.init (.ofText t) padding connection cdata response) ls →
        pieces.length = as.length ∧ again = []) := by
  obtain ⟨hinv, htold⟩ := told_run hz har hrun
  obtain ⟨us, hpushed, hall⟩ := (scraping_run hrun).pushed
  obtain ⟨before, sent, hsplit, hexchanged, ⟨later, hlater⟩, hsent, hend⟩ := htold.data hinv.disciplined hpushed
  have hknown := hdata us
  have hanswered := List.forall₂_take_append _ _ _ (hlater ▸ hknown)
  obtain ⟨pieces, hpieces, hbefore⟩ := pieces_of_exchanged hpiece hexchanged hinv.agreed.answers hanswered
  obtain ⟨again, htext, hagain, hnone⟩ := exists_again timeText hrequest hknown hsent
  have hlength : s.threads.client.answered.length = pieces.length := by
    rw [← hpieces.length_eq, hanswered.length_eq, List.length_map]
  rw [List.length_map, hlength] at hpieces
  rw [hlength] at hagain
  refine ⟨pieces, again, by rw [hsplit, List.flatMap_append, hbefore, htext], hpieces, hagain, ?_⟩
  rintro rfl hpc hsettled
  have hdrained := drained_run hrun hsettled hpc
  obtain ⟨hsent, hall⟩ := hend hpc hdrained.queue (hall hdrained.good hdrained.quiet)
  refine ⟨?_, hnone hsent⟩
  rw [hknown.length_eq, ← hall, List.length_map, hlength]

end Calculator

end TCPClientServer.System
