import TCPClientServer.Basis.Runs
import TCPClientServer.Client.Listen

/-!
# `Client::start`

The thread of the client, one access to something shared with the scraper at a time: each call of the queue
is a step, and so is each operand of the loop test. What the scraper does in between is left open here: it
pushes data, and it is good or not when the client looks.

* `Pc`, `Thread` : where the thread is, and what it works on;
* `next` : its next step, with what comes from outside; `Moves` lists the steps;
* `Disciplined` : what has been pushed is what has been answered followed by the queue; `disciplined_run`;
* `runs_of_pass` : a pass of `listen` is a run of these steps.
-/

namespace TCPClientServer.Client
open TCPClientServer.Basis TCPClientServer.Io TCPClientServer.Server

/-- What the thread does next: open a connection, a call of the queue, the exchange in `send`, or an operand
of the loop test. -/
inductive Pc (D A : Type) where
  | opening
  | testQueue
  | front
  | sending (d : D)
  | popping
  | testKeepAlive (connectionOk : Bool)
  | testEmpty (connectionOk : Bool)
  | testScraper (connectionOk : Bool)
  | returned
  | halted (h : Halt A)
deriving DecidableEq

/-- What comes from outside: how opening a connection and an exchange end. -/
inductive Move (A : Type) where
  | internal
  | opened (result : Except Exn Unit)
  | sent (result : Except Exn (ErrorCode × Response A))

/-- The thread and its queue, all data pushed so far, and the calls of `strategy_.response` with the requests
they answer. -/
structure Thread (σ D A : Type) where
  pc : Pc D A
  queue : List D
  strategy : σ
  pushed : List D
  answered : List (D × Response A)

/-- Behind the loop test: the loop goes on, `listen` returns for another connection, or `start` returns. -/
def afterTest {D A : Type} (connectionOk inputOk : Bool) : Pc D A :=
  if inputOk then if connectionOk then .testQueue else .opening else .returned

def Pc.Connected {D A : Type} : Pc D A → Prop
  | testQueue | front | sending _ | popping => True
  | testKeepAlive connectionOk | testEmpty connectionOk | testScraper connectionOk => connectionOk = true
  | opening | returned | halted _ => False

section Steps
variable {σ D A : Type} (strat : Strategy σ D A) (keepAlive : Bool)

namespace Thread

def push (t : Thread σ D A) (d : D) : Thread σ D A :=
  { t with queue := t.queue ++ [d], pushed := t.pushed ++ [d] }

/-- Behind the `send` of `d`: the error switch, and the response given to the strategy. -/
def onSent (t : Thread σ D A) (d : D) (result : Except Exn (ErrorCode × Response A)) : Thread σ D A :=
  match result with
  | .error e => { t with pc := .halted (.thrown e) }
  | .ok (ec, response) =>
    match react ec response.transmissionStatus with
    | .throws fault => { t with pc := .halted (.thrown (.systemError fault)) }
    | .reconnect => { t with pc := .testKeepAlive false }
    | .respond =>
      match strat.response t.strategy response with
      | none => { t with pc := .halted (.assertion response) }
      | some strategy => { t with pc := .popping, strategy, answered := t.answered ++ [(d, response)] }

/-- The next step; `scraperGood` is what the scraper shows at this moment. -/
def next (scraperGood : Bool) (t : Thread σ D A) (m : Move A) : Option (Thread σ D A) :=
  match t.pc, m with
  | .opening, .opened (.ok _) => some { t with pc := .testQueue }
  | .opening, .opened (.error e) => some { t with pc := .halted (.thrown e) }
  | .testQueue, .internal => some { t with pc := if t.queue.isEmpty then .testKeepAlive true else .front }
  | .front, .internal =>
    match t.queue with
    | [] => none
    | d :: _ => some { t with pc := .sending d, strategy := strat.request t.strategy d }
  | .sending d, .sent result => some (t.onSent strat d result)
  | .popping, .internal => some { t with pc := .testKeepAlive true, queue := t.queue.tail }
  | .testKeepAlive connectionOk, .internal =>
    some { t with pc := if keepAlive then afterTest connectionOk true else .testEmpty connectionOk }
  | .testEmpty connectionOk, .internal =>
    some { t with pc := if t.queue.isEmpty then .testScraper connectionOk else afterTest connectionOk true }
  | .testScraper connectionOk, .internal => some { t with pc := afterTest connectionOk scraperGood }
  | _, _ => none

/-- The steps, one constructor for each way through `next`. -/
inductive Moves (scraperGood : Bool) (t : Thread σ D A) : Move A → Thread σ D A → Prop where
  | opened (hpc : t.pc = .opening) : Moves scraperGood t (.opened (.ok ())) { t with pc := .testQueue }
  | notOpened (hpc : t.pc = .opening) (e : Exn) :
    Moves scraperGood t (.opened (.error e)) { t with pc := .halted (.thrown e) }
  | empty (hpc : t.pc = .testQueue) (hq : t.queue = []) : Moves scraperGood t .internal { t with pc := .testKeepAlive true }
  | nonempty (hpc : t.pc = .testQueue) (hq : t.queue ≠ []) : Moves scraperGood t .internal { t with pc := .front }
  | front (hpc : t.pc = .front) (d : D) (q : List D) (hq : t.queue = d :: q) :
    Moves scraperGood t .internal { t with pc := .sending d, strategy := strat.request t.strategy d }
  | sent (d : D) (hpc : t.pc = .sending d) (result : Except Exn (ErrorCode × Response A)) :
    Moves scraperGood t (.sent result) (t.onSent strat d result)
  | pop (hpc : t.pc = .popping) :
    Moves scraperGood t .internal { t with pc := .testKeepAlive true, queue := t.queue.tail }
  | keepAlive (connectionOk : Bool) (hpc : t.pc = .testKeepAlive connectionOk) : Moves scraperGood t .internal
    { t with pc := if keepAlive then afterTest connectionOk true else .testEmpty connectionOk }
  | testedEmpty (connectionOk : Bool) (hpc : t.pc = .testEmpty connectionOk) (hq : t.queue = []) :
    Moves scraperGood t .internal { t with pc := .testScraper connectionOk }
  | testedNonempty (connectionOk : Bool) (hpc : t.pc = .testEmpty connectionOk) (hq : t.queue ≠ []) :
    Moves scraperGood t .internal { t with pc := afterTest connectionOk true }
  | testedScraper (connectionOk : Bool) (hpc : t.pc = .testScraper connectionOk) :
    Moves scraperGood t .internal { t with pc := afterTest connectionOk scraperGood }

variable {strat keepAlive} in
theorem moves_of_next {scraperGood : Bool} {t t' : Thread σ D A} {m : Move A}
    (h : t.next strat keepAlive scraperGood m = some t') : Moves strat keepAlive scraperGood t m t' := by
  unfold next at h
  split at h
  case h_1 hpc => cases h; exact .opened hpc
  case h_2 hpc => cases h; exact .notOpened hpc _
  case h_3 hpc =>
    by_cases hq : t.queue = []
    · rw [if_pos (List.isEmpty_iff.mpr hq)] at h
      cases h
      exact .empty hpc hq
    · rw [if_neg (by simpa using hq)] at h
      cases h
      exact .nonempty hpc hq
  case h_4 hpc =>
    split at h
    · cases h
    · rename_i d q hq
      cases h
      exact .front hpc d q hq
  case h_5 hpc => cases h; exact .sent _ hpc _
  case h_6 hpc => cases h; exact .pop hpc
  case h_7 hpc => cases h; exact .keepAlive _ hpc
  case h_8 hpc =>
    by_cases hq : t.queue = []
    · rw [if_pos (List.isEmpty_iff.mpr hq)] at h
      cases h
      exact .testedEmpty _ hpc hq
    · rw [if_neg (by simpa using hq)] at h
      cases h
      exact .testedNonempty _ hpc hq
  case h_9 hpc => cases h; exact .testedScraper _ hpc
  case h_10 => cases h

/-- A step of the scraper that the thread can see, or one of its own. -/
inductive Act (D A : Type) where
  | push (d : D)
  | next (scraperGood : Bool) (m : Move A)

def act (t : Thread σ D A) : Act D A → Option (Thread σ D A)
  | .push d => some (t.push d)
  | .next scraperGood m => t.next strat keepAlive scraperGood m

/-! ## The queue -/

/-- The data whose response has not been given to the strategy. -/
def unanswered (t : Thread σ D A) : List D :=
  match t.pc with
  | .popping => t.queue.tail
  | _ => t.queue

/-- **The discipline of the queue**: the data pushed are those answered followed by the others, `front` and
`pop` are called with a queue that is not empty, and what is sent and popped is what `front` returned. -/
structure Disciplined (t : Thread σ D A) : Prop where
  pushed : t.pushed = t.answered.map Prod.fst ++ t.unanswered
  front : t.pc = .front → t.queue ≠ []
  sending : ∀ d, t.pc = .sending d → t.queue.head? = some d
  popping : t.pc = .popping → ∃ d r, t.answered.getLast? = some (d, r) ∧ t.queue.head? = some d

variable {strat keepAlive} {scraperGood : Bool} {t t' : Thread σ D A} {m : Move A} {d : D}

theorem Disciplined.elsewhere (hpushed : t.pushed = t.answered.map Prod.fst ++ t.queue) (hfront : t.pc ≠ .front)
    (hsending : ∀ d, t.pc ≠ .sending d) (hpopping : t.pc ≠ .popping) : t.Disciplined where
  pushed := by
    rw [unanswered]
    split
    · rename_i hpc
      exact absurd hpc hpopping
    · exact hpushed
  front h := absurd h hfront
  sending d h := absurd h (hsending d)
  popping h := absurd h hpopping

theorem Disciplined.pushed_queue (h : t.Disciplined) (hpc : t.pc ≠ .popping) :
    t.pushed = t.answered.map Prod.fst ++ t.queue := by
  rw [h.pushed, unanswered]
  split
  · rename_i hpop
    exact absurd hpop hpc
  · rfl

theorem afterTest_ne (connectionOk inputOk : Bool) : (afterTest connectionOk inputOk : Pc D A) ≠ .front ∧
    (∀ d, (afterTest connectionOk inputOk : Pc D A) ≠ .sending d) ∧
      (afterTest connectionOk inputOk : Pc D A) ≠ .popping := by
  cases connectionOk <;> cases inputOk <;> simp [afterTest]

theorem disciplined_push (h : t.Disciplined) (d : D) : (t.push d).Disciplined where
  pushed := by
    by_cases hpc : t.pc = .popping
    · obtain ⟨d', r, -, hhead⟩ := h.popping hpc
      obtain ⟨q, hq⟩ := List.head?_eq_some_iff.mp hhead
      have hpushed := h.pushed
      simp only [unanswered, hpc, hq, List.tail_cons] at hpushed
      simp [unanswered, push, hpc, hq, hpushed]
    · have hpushed := h.pushed_queue hpc
      simp [unanswered, push, hpushed]
  front _ := by simp [push]
  sending d' hpc := by
    obtain ⟨q, hq⟩ := List.head?_eq_some_iff.mp (h.sending d' hpc)
    simp [push, hq]
  popping hpc := by
    obtain ⟨d', r, hlast, hhead⟩ := h.popping hpc
    obtain ⟨q, hq⟩ := List.head?_eq_some_iff.mp hhead
    exact ⟨d', r, hlast, by simp [push, hq]⟩

/-- After an exchange the front is still there, answered or not. -/
theorem disciplined_onSent (h : t.Disciplined) (hpc : t.pc = .sending d) (result : Except Exn (ErrorCode × Response A)) :
    (t.onSent strat d result).Disciplined := by
  have hpushed := h.pushed_queue (by simp [hpc])
  obtain ⟨q, hq⟩ := List.head?_eq_some_iff.mp (h.sending d hpc)
  unfold onSent
  split
  · exact .elsewhere hpushed (by simp) (by simp) (by simp)
  split
  · exact .elsewhere hpushed (by simp) (by simp) (by simp)
  · exact .elsewhere hpushed (by simp) (by simp) (by simp)
  split
  · exact .elsewhere hpushed (by simp) (by simp) (by simp)
  · constructor
    · simp [unanswered, hpushed, hq]
    · simp
    · simp
    · intro _
      exact ⟨d, _, List.getLast?_concat, by simp [hq]⟩

/-- **Every step of the thread keeps the discipline.** -/
theorem disciplined_moves (h : t.Disciplined) (hmoves : Moves strat keepAlive scraperGood t m t') :
    t'.Disciplined := by
  cases hmoves with
  | opened hpc => exact .elsewhere (h.pushed_queue (by simp [hpc])) (by simp) (by simp) (by simp)
  | notOpened hpc e => exact .elsewhere (h.pushed_queue (by simp [hpc])) (by simp) (by simp) (by simp)
  | empty hpc hq => exact .elsewhere (h.pushed_queue (by simp [hpc])) (by simp) (by simp) (by simp)
  | nonempty hpc hq =>
    refine ⟨?_, fun _ => hq, by simp, by simp⟩
    simpa [unanswered] using h.pushed_queue (by simp [hpc])
  | front hpc d q hq =>
    refine ⟨?_, by simp, ?_, by simp⟩
    · simpa [unanswered] using h.pushed_queue (by simp [hpc])
    · simp [hq]
  | sent d hpc result => exact disciplined_onSent h hpc result
  | pop hpc =>
    refine .elsewhere ?_ (by simp) (by simp) (by simp)
    simpa [unanswered, hpc] using h.pushed
  | keepAlive connectionOk hpc =>
    have hpushed := h.pushed_queue (by simp [hpc])
    obtain ⟨hfront, hsending, hpopping⟩ := afterTest_ne (D := D) (A := A) connectionOk true
    cases keepAlive with
    | true => exact .elsewhere hpushed hfront hsending hpopping
    | false => exact .elsewhere hpushed (by simp) (by simp) (by simp)
  | testedEmpty connectionOk hpc hq =>
    exact .elsewhere (h.pushed_queue (by simp [hpc])) (by simp) (by simp) (by simp)
  | testedNonempty connectionOk hpc hq =>
    obtain ⟨hfront, hsending, hpopping⟩ := afterTest_ne (D := D) (A := A) connectionOk true
    exact .elsewhere (h.pushed_queue (by simp [hpc])) hfront hsending hpopping
  | testedScraper connectionOk hpc =>
    obtain ⟨hfront, hsending, hpopping⟩ := afterTest_ne (D := D) (A := A) connectionOk scraperGood
    exact .elsewhere (h.pushed_queue (by simp [hpc])) hfront hsending hpopping

theorem disciplined_act {a : Act D A} (h : t.Disciplined) (hact : t.act strat keepAlive a = some t') :
    t'.Disciplined := by
  cases a with
  | push d =>
    cases hact
    exact disciplined_push h d
  | next scraperGood m => exact disciplined_moves h (moves_of_next hact)

/-- **The discipline holds in every run**, whatever the scraper and the connections do. -/
theorem disciplined_run {as : List (Act D A)} (hrun : Runs (StepOf (act strat keepAlive)) t as t')
    (h : t.Disciplined) : t'.Disciplined :=
  hrun.invariant (I := fun _ t => t.Disciplined) h fun _ _ _ _ _ ih hact => disciplined_act ih hact

/-! ## The connection -/

theorem connected_afterTest {connectionOk : Bool} (inputOk : Bool)
    (h : (afterTest connectionOk inputOk : Pc D A).Connected) : connectionOk = true := by
  cases connectionOk with
  | true => rfl
  | false => cases inputOk <;> exact h.elim

theorem connected_of_moves (h : Moves strat keepAlive scraperGood t .internal t') (hpc : t'.pc.Connected) :
    t.pc.Connected := by
  cases h with
  | empty hpc' hq => rw [hpc']; trivial
  | nonempty hpc' hq => rw [hpc']; trivial
  | front hpc' d q hq => rw [hpc']; trivial
  | pop hpc' => rw [hpc']; trivial
  | keepAlive connectionOk hpc' =>
    rw [hpc']
    cases keepAlive with
    | true => exact connected_afterTest true hpc
    | false => exact hpc
  | testedEmpty connectionOk hpc' hq => rw [hpc']; exact hpc
  | testedNonempty connectionOk hpc' hq => rw [hpc']; exact connected_afterTest true hpc
  | testedScraper connectionOk hpc' => rw [hpc']; exact connected_afterTest scraperGood hpc

theorem not_sending_of_moves (h : Moves strat keepAlive scraperGood t .internal t') (d : D) : t.pc ≠ .sending d := by
  cases h <;> simp_all

/-- A step without the outside answers nothing and goes on; what it sends, the strategy has been told. -/
theorem local_of_moves (h : Moves strat keepAlive scraperGood t .internal t') : t'.answered = t.answered ∧
    (∀ h, t'.pc ≠ .halted h) ∧ ∀ d, t'.pc = .sending d → t'.strategy = strat.request t.strategy d := by
  have hafter : ∀ connectionOk inputOk, (∀ h, (afterTest connectionOk inputOk : Pc D A) ≠ .halted h) := by
    intro connectionOk inputOk
    cases connectionOk <;> cases inputOk <;> simp [afterTest]
  cases h with
  | empty hpc hq => exact ⟨rfl, by simp, by simp⟩
  | nonempty hpc hq => exact ⟨rfl, by simp, by simp⟩
  | front hpc d q hq => exact ⟨rfl, by simp, by simp⟩
  | pop hpc => exact ⟨rfl, by simp, by simp⟩
  | keepAlive connectionOk hpc =>
    cases keepAlive with
    | true => exact ⟨rfl, hafter _ true, fun d hd => absurd hd ((afterTest_ne connectionOk true).2.1 d)⟩
    | false => exact ⟨rfl, by simp, by simp⟩
  | testedEmpty connectionOk hpc hq => exact ⟨rfl, by simp, by simp⟩
  | testedNonempty connectionOk hpc hq =>
    exact ⟨rfl, hafter _ true, fun d hd => absurd hd ((afterTest_ne connectionOk true).2.1 d)⟩
  | testedScraper connectionOk hpc =>
    exact ⟨rfl, hafter _ _, fun d hd => absurd hd ((afterTest_ne connectionOk scraperGood).2.1 d)⟩

theorem onSent_failed (strat : Strategy σ D A) (t : Thread σ D A) (d : D)
    {result : Except Exn (ErrorCode × Response A)} (h : ∀ r, result ≠ .ok (none, r)) :
    (t.onSent strat d result).answered = t.answered ∧ ¬ (t.onSent strat d result).pc.Connected ∧
      ∀ r, (t.onSent strat d result).pc ≠ .halted (.assertion r) := by
  unfold onSent
  split
  · exact ⟨rfl, id, by simp⟩
  rename_i ec r
  cases ec with
  | none => exact absurd rfl (h r)
  | some e =>
    split
    · exact ⟨rfl, id, by simp⟩
    · exact ⟨rfl, nofun, by simp⟩
    · rename_i hreact
      exact absurd (react_respond.mp hreact).1 (by simp)

theorem onSent_fault (strat : Strategy σ D A) (t : Thread σ D A) (d : D) (e : Fault) (r r' : Response A) :
    t.onSent strat d (.ok (some e, r)) = t.onSent strat d (.ok (some e, r')) := by
  unfold onSent
  have hreact : react (some e) r.transmissionStatus = react (some e) r'.transmissionStatus := by
    cases e <;> rfl
  dsimp only
  rw [hreact]
  split
  · rfl
  · rfl
  · rename_i hrespond
    cases (react_respond.mp hrespond).1

/-- An exchange that ends well, with a response that the strategy takes, answers its request. -/
theorem onSent_answered {r : Response A} {strategy : σ} (hstatus : r.transmissionStatus = .ok)
    (hresponse : strat.response t.strategy r = some strategy) : t.onSent strat d (.ok (none, r)) =
      { t with pc := .popping, strategy, answered := t.answered ++ [(d, r)] } := by
  simp only [onSent, react_respond.mpr ⟨rfl, hstatus⟩, hresponse]

/-! ## A pass of `listen` -/

section Pass
variable (f : Filter) (cd : Codec D) (cr : Codec (Response A)) (l : Listener σ D A) (r : Round D A) (pushed : List D)

def ofListener (pc : Pc D A) (l : Listener σ D A) (pushed : List D) : Thread σ D A :=
  ⟨pc, l.queue, l.strategy, pushed, l.answered⟩

theorem runs_pushes (ds : List D) (t : Thread σ D A) : Runs (StepOf (act strat keepAlive)) t (ds.map .push)
    { t with queue := t.queue ++ ds, pushed := t.pushed ++ ds } := by
  induction ds generalizing t with
  | nil => simpa using Runs.nil t
  | cons d ds ih =>
    refine runs_cons_iff.mpr ⟨t.push d, rfl, ?_⟩
    simpa [push] using ih (t.push d)

theorem runs_next (h : t.next strat keepAlive scraperGood m = some t') :
    Runs (StepOf (act strat keepAlive)) t [.next scraperGood m] t' := .single h

theorem runs_test (strat : Strategy σ D A) (keepAlive : Bool) {connectionOk : Bool}
    (hpc : t.pc = .testKeepAlive connectionOk) (scraperGood : Bool) :
    ∃ as, Runs (StepOf (act strat keepAlive)) t as
      { t with pc := afterTest connectionOk (keepAlive || !t.queue.isEmpty || scraperGood) } := by
  cases keepAlive with
  | true =>
    have hkeepAlive : t.next strat true scraperGood .internal = some { t with pc := afterTest connectionOk true } := by
      simp [next, hpc]
    exact ⟨_, runs_next hkeepAlive⟩
  | false =>
    have hkeepAlive : t.next strat false scraperGood .internal = some { t with pc := .testEmpty connectionOk } := by
      simp [next, hpc]
    cases hq : t.queue.isEmpty with
    | false =>
      have hempty : ({ t with pc := .testEmpty connectionOk } : Thread σ D A).next strat false scraperGood .internal =
          some { t with pc := afterTest connectionOk true } := by simp [next, hq]
      exact ⟨_, (runs_next hkeepAlive).append (runs_next hempty)⟩
    | true =>
      have hempty : ({ t with pc := .testEmpty connectionOk } : Thread σ D A).next strat false scraperGood .internal =
          some { t with pc := .testScraper connectionOk } := by simp [next, hq]
      have hscraper : ({ t with pc := .testScraper connectionOk } : Thread σ D A).next strat false scraperGood .internal =
          some { t with pc := afterTest connectionOk scraperGood } := rfl
      exact ⟨_, ((runs_next hkeepAlive).append (runs_next hempty)).append (runs_next hscraper)⟩

theorem runs_finish (strat : Strategy σ D A) (keepAlive connectionOk : Bool) (responded : Option (Response A)) :
    ∃ as, Runs (StepOf (act strat keepAlive)) (ofListener (.testKeepAlive connectionOk) l pushed) as
      (ofListener (afterTest connectionOk (l.finish keepAlive r responded connectionOk).inputOk)
        (l.finish keepAlive r responded connectionOk).listener (pushed ++ r.arriving)) := by
  obtain ⟨as, hrun⟩ := runs_test strat keepAlive
    (t := ofListener (.testKeepAlive connectionOk) { l with queue := l.queue ++ r.arriving } (pushed ++ r.arriving))
    rfl r.scraperGood
  exact ⟨_, (runs_pushes r.arriving _).append hrun⟩

/-- From the loop test to the exchange. -/
theorem runs_to_sending (strat : Strategy σ D A) (keepAlive : Bool) {q : List D} (hq : l.queue = d :: q) :
    ∃ as, Runs (StepOf (act strat keepAlive)) (ofListener .testQueue l pushed) as
      (ofListener (.sending d) { l with strategy := strat.request l.strategy d } pushed) := by
  have htest : (ofListener .testQueue l pushed).next strat keepAlive true .internal =
      some (ofListener .front l pushed) := by simp [next, ofListener, hq]
  have hfront : (ofListener .front l pushed).next strat keepAlive true .internal =
      some (ofListener (.sending d) { l with strategy := strat.request l.strategy d } pushed) := by
    simp [next, ofListener, hq]
  exact ⟨_, (runs_next htest).append (runs_next hfront)⟩

/-- **A pass of `listen` is a run of the thread** in which the scraper pushes what arrives before the test. -/
theorem runs_of_pass {p : Passed σ D A} (h : pass f cd cr strat keepAlive l r = .ok p) :
    ∃ as, Runs (StepOf (act strat keepAlive)) (ofListener .testQueue l pushed) as
      (ofListener (afterTest p.connectionOk p.inputOk) p.listener (pushed ++ r.arriving)) := by
  rcases pass_cases h with ⟨hq, rfl⟩ | ⟨d, q, sent, hq, ⟨hreact, rfl⟩ | ⟨strategy, hreact, hresponse, rfl⟩⟩
  · have htest : (ofListener .testQueue l pushed).next strat keepAlive true .internal =
        some (ofListener (.testKeepAlive true) l pushed) := by simp [next, ofListener, hq]
    obtain ⟨as, hrun⟩ := runs_finish l r pushed strat keepAlive true none
    exact ⟨_, (runs_next htest).append hrun⟩
  · obtain ⟨as, hsending⟩ := runs_to_sending l pushed strat keepAlive hq
    let l' : Listener σ D A := { l with connection := sent.connection, strategy := strat.request l.strategy d }
    have hsent : (ofListener (.sending d) { l with strategy := strat.request l.strategy d } pushed).next strat
        keepAlive true (.sent (.ok (sent.ec, sent.response))) = some (ofListener (.testKeepAlive false) l' pushed) := by
      simp [next, ofListener, onSent, hreact, l']
    obtain ⟨as', hrun⟩ := runs_finish l' r pushed strat keepAlive false none
    exact ⟨_, (hsending.append (runs_next hsent)).append hrun⟩
  · obtain ⟨as, hsending⟩ := runs_to_sending l pushed strat keepAlive hq
    let l' : Listener σ D A := ⟨sent.connection, l.queue.tail, strategy, l.answered ++ [(d, sent.response)]⟩
    have hsent : (ofListener (.sending d) { l with strategy := strat.request l.strategy d } pushed).next strat
        keepAlive true (.sent (.ok (sent.ec, sent.response))) =
          some (ofListener .popping { l' with queue := l.queue } pushed) := by
      simp [next, ofListener, onSent, hreact, hresponse, l']
    have hpop : (ofListener .popping { l' with queue := l.queue } pushed).next strat keepAlive true .internal =
        some (ofListener (.testKeepAlive true) l' pushed) := rfl
    obtain ⟨as', hrun⟩ := runs_finish l' r pushed strat keepAlive true (some sent.response)
    exact ⟨_, ((hsending.append (runs_next hsent)).append (runs_next hpop)).append hrun⟩

end Pass

end Thread

end Steps

end TCPClientServer.Client
