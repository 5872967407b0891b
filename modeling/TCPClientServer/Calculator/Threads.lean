import TCPClientServer.Calculator.Actions
import TCPClientServer.Calculator.Scraping
import TCPClientServer.Client.Thread

/-!
# The two threads of the calculator's client

The scraper reads lines and pushes data while the client sends what is in the queue. The threads share the
queue and the input stream: the scraper reads it, and the client looks whether it is good. A line that is
read, a datum that is pushed and each step of the client are one step.

* `ScraperPc`, `Threads` : where the scraper is, and the two threads;
* `scrape`, `step` : a step of the scraper, and of either thread;
* `disciplined_step` : the steps keep the discipline of the queue;
* `alone_of_pushes` : the loop of `Scraper::start` is a run of the scraper's steps.
-/

namespace TCPClientServer.Calculator
open TCPClientServer.Basis TCPClientServer.Io TCPClientServer.Client

/-- What the scraper does next: the test of its loop, the loop over lines with what the buffer holds, the
parsing of the buffer, or a push. -/
inductive ScraperPc where
  | loopTest
  | reading (u : Locals) (buffer : Bytes)
  | parsing (u : Locals) (buffer : Bytes)
  | pushing (d : ClientData)
  | stopped

/-- The input stream and the two threads. -/
structure Threads where
  stream : IStream
  scraper : ScraperPc
  client : Client.Thread Padding ClientData ServerData

/-- The thread that is next, with the memory of a call of `get_datum` that begins. -/
inductive Action where
  | scrape (u : Locals)
  | client (m : Move ServerData)

namespace Threads

def init (is : IStream) (padding : Padding) : Threads := ⟨is, .loopTest, ⟨.opening, [], padding, [], []⟩⟩

section Steps
variable (clientId : Bytes) (keepAlive : Bool)

/-- The next step of `Scraper::start` with `DataScraper::get_datum` in it. -/
def scrape (s : Threads) (u : Locals) : Option Threads :=
  match s.scraper with
  | .loopTest => some { s with scraper := if s.stream.ok then .reading u [] else .stopped }
  | .reading u buffer =>
    if s.stream.ok && !s.stream.eof && buffer.isEmpty then
      let (line, stream) := s.stream.getline maxInputLength
      some { s with stream, scraper := .reading u (cstr line) }
    else some { s with scraper := .parsing u buffer }
  | .parsing u buffer =>
    if s.stream.bad then some { s with scraper := .stopped }
    else if buffer = [] then some { s with scraper := .loopTest }
    else
      match parseDatum u clientId buffer with
      | .ok d => some { s with scraper := .pushing d }
      | .error .runtimeError => some { s with scraper := .stopped }
      | .error _ => some { s with scraper := .loopTest }
  | .pushing d => some { s with scraper := .loopTest, client := s.client.push d }
  | .stopped => none

def step (s : Threads) : Action → Option Threads
  | .scrape u => s.scrape clientId u
  | .client m => (s.client.next ClientActions keepAlive s.stream.good m).map fun client => { s with client }

/-- The steps of the scraper, one constructor for each way through `scrape`. -/
inductive Scrapes (s : Threads) (u : Locals) : Threads → Prop where
  | start (hpc : s.scraper = .loopTest) (hok : s.stream.ok = true) : Scrapes s u { s with scraper := .reading u [] }
  | stop (hpc : s.scraper = .loopTest) (hok : s.stream.ok = false) : Scrapes s u { s with scraper := .stopped }
  | line (v : Locals) (hpc : s.scraper = .reading v []) (hgood : s.stream.good = true) : Scrapes s u
    { s with stream := (s.stream.getline maxInputLength).2,
             scraper := .reading v (cstr (s.stream.getline maxInputLength).1) }
  | read (v : Locals) (buffer : Bytes) (hpc : s.scraper = .reading v buffer)
    (hend : s.stream.good = true → buffer ≠ []) : Scrapes s u { s with scraper := .parsing v buffer }
  | corrupted (v : Locals) (buffer : Bytes) (hpc : s.scraper = .parsing v buffer) (hbad : s.stream.bad = true) :
    Scrapes s u { s with scraper := .stopped }
  | skip (v : Locals) (buffer : Bytes) (hpc : s.scraper = .parsing v buffer) (hbad : s.stream.bad = false)
    (hnone : buffer ≠ [] → parseDatum v clientId buffer = .error .badDataError) :
    Scrapes s u { s with scraper := .loopTest }
  | parsed (v : Locals) (buffer : Bytes) (hpc : s.scraper = .parsing v buffer) (hbad : s.stream.bad = false)
    (hne : buffer ≠ []) (d : ClientData) (hd : parseDatum v clientId buffer = .ok d) :
    Scrapes s u { s with scraper := .pushing d }
  | push (d : ClientData) (hpc : s.scraper = .pushing d) :
    Scrapes s u { s with scraper := .loopTest, client := s.client.push d }

variable {clientId keepAlive} {s s' : Threads} {u : Locals}

theorem scrapes_iff : s.scrape clientId u = some s' ↔ Scrapes clientId s u s' := by
  constructor
  · intro h
    unfold scrape at h
    split at h
    case h_1 hpc =>
      cases h
      cases hok : s.stream.ok with
      | true => exact .start hpc hok
      | false => exact .stop hpc hok
    case h_2 v buffer hpc =>
      rw [good_eq] at h
      split at h
      · rename_i hloop
        obtain ⟨hgood, hempty⟩ := Bool.and_eq_true _ _ ▸ hloop
        obtain rfl := List.isEmpty_iff.mp hempty
        cases h
        exact .line v hpc hgood
      · rename_i hloop
        cases h
        exact .read v buffer hpc fun hgood hnil => hloop (by simp [hgood, hnil])
    case h_3 v buffer hpc =>
      split at h
      · rename_i hbad
        cases h
        exact .corrupted v buffer hpc hbad
      rename_i hbad
      split at h
      · rename_i hnil
        cases h
        exact .skip v buffer hpc (by simpa using hbad) fun hne => absurd hnil hne
      rename_i hne
      split at h
      · rename_i d hd
        cases h
        exact .parsed v buffer hpc (by simpa using hbad) hne d hd
      · rename_i hd
        cases parseDatum_error hd
      · rename_i e _ hd
        cases h
        exact .skip v buffer hpc (by simpa using hbad) fun _ => parseDatum_error hd ▸ hd
    case h_4 d hpc => cases h; exact .push d hpc
    case h_5 => cases h
  · intro h
    cases h with
    | start hpc hok => simp [scrape, hpc, hok]
    | stop hpc hok => simp [scrape, hpc, hok]
    | line v hpc hgood => simp [scrape, hpc, good_eq, hgood]
    | read v buffer hpc hend => simpa [scrape, hpc, good_eq] using hend
    | corrupted v buffer hpc hbad => simp [scrape, hpc, hbad]
    | skip v buffer hpc hbad hnone =>
      by_cases hne : buffer = []
      · simp [scrape, hpc, hbad, hne]
      · simp [scrape, hpc, hbad, hne, hnone hne]
    | parsed v buffer hpc hbad hne d hd => simp [scrape, hpc, hbad, hne, hd]
    | push d hpc => simp [scrape, hpc]

/-! ## The client's thread in a step -/

theorem client_of_scrapes (h : Scrapes clientId s u s') :
    s'.client = s.client ∨ ∃ d, s'.client = s.client.push d := by
  cases h with
  | push d hpc => exact .inr ⟨d, rfl⟩
  | _ => exact .inl rfl

/-- A step is one of the client's thread, or a push, or not seen by it. -/
theorem client_of_step {a : Action} (h : s.step clientId keepAlive a = some s') : s'.client = s.client ∨
    ∃ act, s.client.act ClientActions keepAlive act = some s'.client := by
  cases a with
  | client m =>
    obtain ⟨client, hnext, rfl⟩ := Option.map_eq_some_iff.mp h
    exact .inr ⟨.next s.stream.good m, hnext⟩
  | scrape u =>
    rcases client_of_scrapes (scrapes_iff.mp h) with hclient | ⟨d, hclient⟩
    · exact .inl hclient
    · exact .inr ⟨.push d, congrArg some hclient.symm⟩

structure Scraped (s : Threads) : Prop where
  pushed : ∀ d ∈ s.client.pushed, d.operand1.Proper ∧ d.operand2.Proper
  pushing : ∀ d, s.scraper = .pushing d → d.operand1.Proper ∧ d.operand2.Proper

theorem pushed_of_moves {scraperGood : Bool} {t t' : Client.Thread Padding ClientData ServerData}
    {m : Move ServerData} (h : Thread.Moves ClientActions keepAlive scraperGood t m t') : t'.pushed = t.pushed := by
  cases h with
  | sent d hpc result =>
    unfold Thread.onSent
    split
    · rfl
    split
    · rfl
    · rfl
    split <;> rfl
  | _ => rfl

theorem scraped_step {a : Action} (hs : s.Scraped) (h : s.step clientId keepAlive a = some s') : s'.Scraped := by
  cases a with
  | client m =>
    obtain ⟨client, hnext, rfl⟩ := Option.map_eq_some_iff.mp h
    exact ⟨by rw [pushed_of_moves (Thread.moves_of_next hnext)]; exact hs.pushed, hs.pushing⟩
  | scrape u =>
    cases scrapes_iff.mp h with
    | parsed v buffer hpc hbad hne d hd =>
      refine ⟨hs.pushed, fun d' hd' => ?_⟩
      cases hd'
      exact parseDatum_proper hd
    | push d hpc =>
      refine ⟨fun d' hd' => ?_, by simp⟩
      rcases List.mem_append.mp hd' with hd' | hd'
      · exact hs.pushed d' hd'
      · obtain rfl := List.mem_singleton.mp hd'
        exact hs.pushing d' hpc
    | _ => exact ⟨hs.pushed, by simp⟩

theorem disciplined_init (is : IStream) (padding : Padding) : (init is padding).client.Disciplined :=
  .elsewhere (by simp [init]) (by simp [init]) (by simp [init]) (by simp [init])

theorem disciplined_step {a : Action} (hs : s.client.Disciplined) (h : s.step clientId keepAlive a = some s') :
    s'.client.Disciplined := by
  rcases client_of_step h with hclient | ⟨act, hact⟩
  · rwa [hclient]
  · exact Thread.disciplined_act hs hact

/-- **Both threads together keep the discipline of the queue**, in every interleaving. -/
theorem disciplined_run {as : List Action} (hrun : Runs (StepOf (step clientId keepAlive)) s as s')
    (hs : s.client.Disciplined) : s'.client.Disciplined :=
  hrun.invariant (I := fun _ s => s.client.Disciplined) hs fun _ _ _ _ _ ih h => disciplined_step ih h

/-! ## The scraper alone -/

section Alone
variable {is is' : IStream} {c : Client.Thread Padding ClientData ServerData} {s'' : Threads}

variable (clientId keepAlive) in
def Alone (s s' : Threads) : Prop :=
  ∃ us : List Locals, Runs (StepOf (step clientId keepAlive)) s (us.map .scrape) s'

theorem Alone.trans (h : Alone clientId keepAlive s s') (h' : Alone clientId keepAlive s' s'') :
    Alone clientId keepAlive s s'' := by
  obtain ⟨us, h⟩ := h
  obtain ⟨us', h'⟩ := h'
  exact ⟨us ++ us', by rw [List.map_append]; exact h.append h'⟩

theorem Alone.scrapes (u : Locals) (h : Scrapes clientId s u s') : Alone clientId keepAlive s s' :=
  ⟨[u], .single (scrapes_iff.mpr h)⟩

theorem alone_readLine (u : Locals) (is : IStream) : Alone clientId keepAlive ⟨is, .reading u [], c⟩
    ⟨(readLine is).2, .parsing u (readLine is).1, c⟩ := by
  rw [readLine_eq]
  cases hgood : is.good with
  | false => exact .scrapes u (.read u [] rfl (by simp [hgood]))
  | true =>
    have hline : Alone clientId keepAlive ⟨is, .reading u [], c⟩ ⟨(is.getline maxInputLength).2,
        .reading u (cstr (is.getline maxInputLength).1), c⟩ := .scrapes u (.line u rfl hgood)
    have hprogress := is.getline_progress maxInputLength hgood
    rcases h : is.getline maxInputLength with ⟨line, is'⟩
    simp only [h] at hline hprogress
    simp only [if_true]
    split
    · rename_i hnil
      rw [hnil] at hline
      rcases hprogress with hstop | hless
      · rw [readLine_eq, if_neg (by simp [hstop])]
        exact hline.trans (.scrapes u (.read u [] rfl (by simp [hstop])))
      · exact hline.trans (alone_readLine u is')
    · rename_i hne
      exact hline.trans (.scrapes u (.read u _ rfl fun _ => hne))
termination_by is.unread.length

/-- Where a call of `get_datum` and the loop around it leave the scraper. -/
def afterDatum (is : IStream) (c : Client.Thread Padding ClientData ServerData) :
    Except ScrapeError ClientData → Threads
  | .ok d => ⟨is, .loopTest, c.push d⟩
  | .error .runtimeError => ⟨is, .stopped, c⟩
  | .error _ => ⟨is, .loopTest, c⟩

theorem alone_getDatum (hok : is.ok = true) (u : Locals) : Alone clientId keepAlive ⟨is, .loopTest, c⟩
    (afterDatum (getDatum clientId u is).2 c (getDatum clientId u is).1) := by
  have hstart : Alone clientId keepAlive ⟨is, .loopTest, c⟩ ⟨is, .reading u [], c⟩ := .scrapes u (.start rfl hok)
  have hparsing := hstart.trans (alone_readLine u is)
  rcases hline : readLine is with ⟨buffer, is'⟩
  rw [hline] at hparsing
  simp only [getDatum, hline]
  cases hbad : is'.bad with
  | true => exact hparsing.trans (.scrapes u (.corrupted u buffer rfl hbad))
  | false =>
    by_cases hnil : buffer = []
    · rw [if_neg (by decide), if_pos hnil]
      exact hparsing.trans (.scrapes u (.skip u buffer rfl hbad fun hne => absurd hnil hne))
    rw [if_neg (by decide), if_neg hnil]
    cases hparse : parseDatum u clientId buffer with
    | error e =>
      obtain rfl := parseDatum_error hparse
      exact hparsing.trans (.scrapes u (.skip u buffer rfl hbad fun _ => hparse))
    | ok d =>
      have hparsed := hparsing.trans (.scrapes u (.parsed u buffer rfl hbad hnil d hparse))
      exact hparsed.trans (.scrapes u (.push d rfl))

/-- The loop of `Scraper::start`, from where it has got to with the data already pushed. -/
theorem alone_start {n : Nat} {us : Nat → Locals} {ds : List ClientData}
    (h : start (getDatum clientId) us n is = some ds) : ∃ is', Alone clientId keepAlive ⟨is, .loopTest, c⟩
      ⟨is', .stopped, { c with queue := c.queue ++ ds, pushed := c.pushed ++ ds }⟩ := by
  induction n generalizing us is ds c with
  | zero => cases h
  | succ n ih =>
    rw [start] at h
    cases hok : is.ok with
    | false =>
      obtain rfl : ds = [] := by simpa [hok] using h.symm
      have hstop : Alone clientId keepAlive ⟨is, .loopTest, c⟩ ⟨is, .stopped, c⟩ := .scrapes (us 0) (.stop rfl hok)
      exact ⟨is, by simpa using hstop⟩
    | true =>
      have hround : Alone clientId keepAlive ⟨is, .loopTest, c⟩ _ := alone_getDatum hok (us 0)
      simp only [hok, if_true] at h
      rcases hget : getDatum clientId (us 0) is with ⟨e | d, is'⟩
      all_goals simp only [hget] at h hround
      · cases e with
        | runtimeError =>
          obtain rfl : ds = [] := by simpa using h.symm
          exact ⟨is', by simpa [afterDatum] using hround⟩
        | badDataError =>
          obtain ⟨is'', hrest⟩ := ih h
          exact ⟨is'', hround.trans hrest⟩
        | outOfData =>
          obtain ⟨is'', hrest⟩ := ih h
          exact ⟨is'', hround.trans hrest⟩
      · obtain ⟨ds', hds, rfl⟩ := Option.map_eq_some_iff.mp h
        obtain ⟨is'', hrest⟩ := ih (c := c.push d) hds
        exact ⟨is'', hround.trans (by simpa [Thread.push, afterDatum] using hrest)⟩

/-- **The loop of `Scraper::start` is a run of the scraper**: left alone it pushes these data and stops. -/
theorem alone_of_pushes {us : Nat → Locals} {ds : List ClientData} (h : Pushes (getDatum clientId) us is ds) :
    ∃ is', Alone clientId keepAlive ⟨is, .loopTest, c⟩
      ⟨is', .stopped, { c with queue := c.queue ++ ds, pushed := c.pushed ++ ds }⟩ := by
  obtain ⟨n, hn⟩ := h
  exact alone_start hn

end Alone

end Steps

end Threads

end TCPClientServer.Calculator
