import TCPClientServer.Client.Thread

/-!
# The calls of the queue

The steps of the client's thread and the pushes of the scraper, with a log of the calls of
`safe_container::queue` that they make and of what `send` returns. A `front` or a `pop` is logged with the
element it meets, and with none on an empty queue.

* `Entry`, `entry` : what a step puts into the log; `Thread.logged` : the steps with the log;
* `Fetched`, `AnsweredFront` : what has happened since the last `front`;
* `QueueLog` : the invariant; `queueLog_moves`, `queueLog_run` : every step and every run keeps it;
* `queue_discipline` : what it comes to in every run.
-/

namespace TCPClientServer.Client
open TCPClientServer.Basis TCPClientServer.Io TCPClientServer.Server

/-- A call of the queue, or a `send` that returns. -/
inductive Entry (D A : Type) where
  | push (d : D)
  | empty (result : Bool)
  | front (result : Option D)
  | sent (d : D) (ec : ErrorCode) (r : Response A)
  | pop (removed : Option D)
deriving DecidableEq

section Log
variable {D A : Type}

def pushes (log : List (Entry D A)) : List D :=
  log.filterMap fun
    | .push d => some d
    | _ => none

def pops (log : List (Entry D A)) : List D :=
  log.filterMap fun
    | .pop (some d) => some d
    | _ => none

@[simp] theorem pushes_append (log log' : List (Entry D A)) : pushes (log ++ log') = pushes log ++ pushes log' :=
  List.filterMap_append

@[simp] theorem pops_append (log log' : List (Entry D A)) : pops (log ++ log') = pops log ++ pops log' :=
  List.filterMap_append

/-- The last `front` returned `d`, and nothing but pushes has happened since. -/
def Fetched (d : D) (log : List (Entry D A)) : Prop :=
  ∃ l mid, log = l ++ .front (some d) :: mid ∧ ∀ e ∈ mid, ∃ x, e = .push x

/-- The last `front` returned `d`, and since then `d` has been sent and answered, besides nothing but pushes. -/
def AnsweredFront (d : D) (log : List (Entry D A)) : Prop :=
  ∃ l mid r, log = l ++ .front (some d) :: mid ∧ .sent d none r ∈ mid ∧ r.transmissionStatus = .ok ∧
    ∀ e ∈ mid, (∃ x, e = .push x) ∨ e = .sent d none r

/-- Every pop removes the element that the last `front` before it returned and that was answered since. -/
def PopsAnswered (log : List (Entry D A)) : Prop :=
  ∀ l removed rest, log = l ++ .pop removed :: rest → ∃ d, removed = some d ∧ AnsweredFront d l

theorem Fetched.push {d : D} {log : List (Entry D A)} (h : Fetched d log) (x : D) :
    Fetched d (log ++ [.push x]) := by
  obtain ⟨l, mid, rfl, hmid⟩ := h
  refine ⟨l, mid ++ [.push x], by simp, ?_⟩
  intro e he
  rcases List.mem_append.mp he with he | he
  · exact hmid e he
  · exact ⟨x, List.mem_singleton.mp he⟩

theorem AnsweredFront.push {d : D} {log : List (Entry D A)} (h : AnsweredFront d log) (x : D) :
    AnsweredFront d (log ++ [.push x]) := by
  obtain ⟨l, mid, r, rfl, hsent, hstatus, hmid⟩ := h
  refine ⟨l, mid ++ [.push x], r, by simp, List.mem_append_left _ hsent, hstatus, ?_⟩
  intro e he
  rcases List.mem_append.mp he with he | he
  · exact hmid e he
  · exact .inl ⟨x, List.mem_singleton.mp he⟩

theorem Fetched.answered {d : D} {log : List (Entry D A)} (h : Fetched d log) {r : Response A}
    (hstatus : r.transmissionStatus = .ok) : AnsweredFront d (log ++ [.sent d none r]) := by
  obtain ⟨l, mid, rfl, hmid⟩ := h
  refine ⟨l, mid ++ [.sent d none r], r, by simp, List.mem_append_right _ (List.mem_singleton.mpr rfl), hstatus, ?_⟩
  intro e he
  rcases List.mem_append.mp he with he | he
  · exact .inl (hmid e he)
  · exact .inr (List.mem_singleton.mp he)

theorem PopsAnswered.snoc {log : List (Entry D A)} (h : PopsAnswered log) {e : Entry D A}
    (he : ∀ removed, e = .pop removed → ∃ d, removed = some d ∧ AnsweredFront d log) : PopsAnswered (log ++ [e]) := by
  intro l removed rest heq
  rcases List.eq_nil_or_concat rest with rfl | ⟨rest', last, rfl⟩
  · obtain ⟨rfl, rfl⟩ := List.append_singleton_inj.mp heq
    exact he removed rfl
  · rw [List.concat_eq_append, ← List.cons_append, ← List.append_assoc] at heq
    exact h l removed rest' (List.append_singleton_inj.mp heq).1

end Log

section Steps
variable {σ D A : Type} (strat : Strategy σ D A) (keepAlive : Bool)

namespace Thread

def entry (t : Thread σ D A) : Act D A → Option (Entry D A)
  | .push d => some (.push d)
  | .next _ m =>
    match t.pc, m with
    | .testQueue, .internal => some (.empty t.queue.isEmpty)
    | .testEmpty _, .internal => some (.empty t.queue.isEmpty)
    | .front, .internal => some (.front t.queue.head?)
    | .popping, .internal => some (.pop t.queue.head?)
    | .sending d, .sent (.ok (ec, r)) => some (.sent d ec r)
    | _, _ => none

def logged (s : Thread σ D A × List (Entry D A)) (a : Act D A) : Option (Thread σ D A × List (Entry D A)) :=
  (s.1.act strat keepAlive a).map fun t => (t, s.2 ++ (s.1.entry a).toList)

def initial (strategy : σ) : Thread σ D A := ⟨.opening, [], strategy, [], []⟩

/-- What holds of the thread and its log in every reachable state. -/
structure QueueLog (t : Thread σ D A) (log : List (Entry D A)) : Prop where
  disciplined : t.Disciplined
  conserved : pushes log = pops log ++ t.queue
  fetched : ∀ d, t.pc = .sending d → Fetched d log
  answered : ∀ d, t.pc = .popping → t.queue.head? = some d → AnsweredFront d log
  popped : PopsAnswered log

variable {strat keepAlive} {scraperGood : Bool} {t t' : Thread σ D A} {m : Move A} {d : D} {log : List (Entry D A)}

/-- A step beside `push`, `front` and `pop` leaves the queue alone. -/
theorem QueueLog.beside (h : QueueLog t log) (hdisciplined : t'.Disciplined) (hqueue : t'.queue = t.queue)
    (hsending : ∀ d, t'.pc ≠ .sending d) (hpopping : t'.pc ≠ .popping) {e : Option (Entry D A)}
    (he : ∀ x ∈ e, (∃ b, x = .empty b) ∨ ∃ d ec r, x = .sent d ec r) : QueueLog t' (log ++ e.toList) := by
  refine ⟨hdisciplined, ?_, fun d hpc => absurd hpc (hsending d), fun d hpc => absurd hpc hpopping, ?_⟩
  · cases e with
    | none => simpa [hqueue] using h.conserved
    | some x =>
      rcases he x rfl with ⟨b, rfl⟩ | ⟨d, ec, r, rfl⟩ <;> simpa [pushes, pops, hqueue] using h.conserved
  · cases e with
    | none => simpa using h.popped
    | some x =>
      apply h.popped.snoc
      rintro removed rfl
      simpa using he _ rfl

theorem queueLog_push (h : QueueLog t log) (x : D) : QueueLog (t.push x) (log ++ [.push x]) := by
  refine ⟨disciplined_push h.disciplined x, ?_, ?_, ?_, ?_⟩
  · have hconserved := h.conserved
    simp only [pushes_append, pops_append, push, hconserved, List.append_assoc]
    rfl
  · intro d hpc
    exact (h.fetched d hpc).push x
  · intro d hpc hhead
    obtain ⟨d', r, -, hhead'⟩ := h.disciplined.popping hpc
    obtain ⟨q, hq⟩ := List.head?_eq_some_iff.mp hhead'
    have hd : d' = d := by simpa [push, hq] using hhead
    exact (h.answered d hpc (hd ▸ hhead')).push x
  · apply h.popped.snoc
    intro removed heq
    cases heq

/-- An exchange leaves the queue alone, and the thread goes on to `pop` only when it was answered. -/
theorem onSent_queue (strat : Strategy σ D A) (t : Thread σ D A) (d : D)
    (result : Except Exn (ErrorCode × Response A)) : (t.onSent strat d result).queue = t.queue ∧
      (∀ d', (t.onSent strat d result).pc ≠ .sending d') ∧
      ((t.onSent strat d result).pc = .popping → ∃ r, result = .ok (none, r) ∧ r.transmissionStatus = .ok) := by
  unfold onSent
  split
  · exact ⟨rfl, by simp, by simp⟩
  rename_i ec r
  split
  · exact ⟨rfl, by simp, by simp⟩
  · exact ⟨rfl, by simp, by simp⟩
  · rename_i hreact
    obtain ⟨rfl, hstatus⟩ := react_respond.mp hreact
    split
    · exact ⟨rfl, by simp, by simp⟩
    · exact ⟨rfl, by simp, fun _ => ⟨r, rfl, hstatus⟩⟩

theorem queueLog_onSent (h : QueueLog t log) (hpc : t.pc = .sending d)
    (result : Except Exn (ErrorCode × Response A)) : QueueLog (t.onSent strat d result)
      (log ++ (t.entry (.next scraperGood (.sent result))).toList) := by
  have hdisciplined : (t.onSent strat d result).Disciplined := disciplined_onSent h.disciplined hpc result
  obtain ⟨hqueue, hsending, hresponse⟩ := onSent_queue strat t d result
  by_cases hpop : (t.onSent strat d result).pc = .popping
  · obtain ⟨r, rfl, hstatus⟩ := hresponse hpop
    have hentry : t.entry (.next scraperGood (.sent (.ok (none, r)))) = some (.sent d none r) := by
      simp only [entry, hpc]
    rw [hentry, Option.toList_some]
    refine ⟨hdisciplined, ?_, fun d' hpc' => absurd hpc' (hsending d'), ?_, ?_⟩
    · simpa [pushes, pops, hqueue] using h.conserved
    · intro d' _ hhead
      rw [hqueue, h.disciplined.sending d hpc] at hhead
      cases hhead
      exact (h.fetched d hpc).answered hstatus
    · apply h.popped.snoc
      intro removed heq
      cases heq
  · apply h.beside hdisciplined hqueue hsending hpop
    intro x hx
    cases result with
    | error e => simp [entry, hpc] at hx
    | ok answer =>
      have hentry : x = .sent d answer.1 answer.2 := by simpa [entry, hpc, eq_comm] using hx
      exact .inr ⟨d, answer.1, answer.2, hentry⟩

/-- **Every step of the thread keeps the log as it should be.** -/
theorem queueLog_moves (h : QueueLog t log) (hmoves : Moves strat keepAlive scraperGood t m t') :
    QueueLog t' (log ++ (t.entry (.next scraperGood m)).toList) := by
  have hdisciplined := disciplined_moves h.disciplined hmoves
  cases hmoves with
  | opened hpc => exact h.beside hdisciplined rfl (by simp) (by simp) (by simp [entry, hpc])
  | notOpened hpc e => exact h.beside hdisciplined rfl (by simp) (by simp) (by simp [entry, hpc])
  | empty hpc hq => exact h.beside hdisciplined rfl (by simp) (by simp) (by simp [entry, hpc, hq])
  | nonempty hpc hq => exact h.beside hdisciplined rfl (by simp) (by simp) (by simp [entry, hpc, hq])
  | front hpc d q hq =>
    have hentry : t.entry (.next scraperGood .internal) = some (.front (some d)) := by simp [entry, hpc, hq]
    rw [hentry, Option.toList_some]
    refine ⟨hdisciplined, ?_, ?_, by simp, ?_⟩
    · simpa [pushes, pops] using h.conserved
    · intro d' hpc'
      cases hpc'
      exact ⟨log, [], rfl, by simp⟩
    · apply h.popped.snoc
      intro removed heq
      cases heq
  | sent d hpc result => exact queueLog_onSent h hpc result
  | pop hpc =>
    obtain ⟨d, r, -, hhead⟩ := h.disciplined.popping hpc
    obtain ⟨q, hq⟩ := List.head?_eq_some_iff.mp hhead
    have hentry : t.entry (.next scraperGood .internal) = some (.pop (some d)) := by simp [entry, hpc, hq]
    rw [hentry, Option.toList_some]
    refine ⟨hdisciplined, ?_, by simp, by simp, ?_⟩
    · have hconserved := h.conserved
      simpa [pushes, pops, hq] using hconserved
    · apply h.popped.snoc
      intro removed heq
      cases heq
      exact ⟨d, rfl, h.answered d hpc hhead⟩
  | keepAlive connectionOk hpc =>
    obtain ⟨hfront, hsending, hpopping⟩ := afterTest_ne (D := D) (A := A) connectionOk true
    cases keepAlive with
    | true => exact h.beside hdisciplined rfl hsending hpopping (by simp [entry, hpc])
    | false => exact h.beside hdisciplined rfl (by simp) (by simp) (by simp [entry, hpc])
  | testedEmpty connectionOk hpc hq => exact h.beside hdisciplined rfl (by simp) (by simp) (by simp [entry, hpc, hq])
  | testedNonempty connectionOk hpc hq =>
    obtain ⟨hfront, hsending, hpopping⟩ := afterTest_ne (D := D) (A := A) connectionOk true
    exact h.beside hdisciplined rfl hsending hpopping (by simp [entry, hpc, hq])
  | testedScraper connectionOk hpc =>
    obtain ⟨hfront, hsending, hpopping⟩ := afterTest_ne (D := D) (A := A) connectionOk scraperGood
    exact h.beside hdisciplined rfl hsending hpopping (by simp [entry, hpc])

theorem queueLog_initial (strategy : σ) : QueueLog (initial strategy : Thread σ D A) [] where
  disciplined := .elsewhere rfl (by simp [initial]) (by simp [initial]) (by simp [initial])
  conserved := rfl
  fetched d hpc := by cases hpc
  answered d hpc := by cases hpc
  popped l removed rest heq := by simp at heq

theorem queueLog_run {strategy : σ} {as : List (Act D A)}
    (hrun : Runs (StepOf (logged strat keepAlive)) (initial strategy, []) as (t, log)) : QueueLog t log := by
  refine hrun.invariant (I := fun _ s => QueueLog s.1 s.2) (queueLog_initial strategy) ?_
  intro as s a s' _ h hstep
  obtain ⟨t', hact, rfl⟩ := Option.map_eq_some_iff.mp hstep
  cases a with
  | push d =>
    cases hact
    exact queueLog_push h d
  | next scraperGood m => exact queueLog_moves h (moves_of_next hact)

variable (strat keepAlive) in
/-- **The discipline of the queue.** However the pushes of the scraper fall between the steps of the client, and
however its connections and exchanges end, the data pushed are those popped followed by the queue; `front` and
`pop` never meet an empty queue; and a pop removes what the last `front` returned, which has been sent and
answered since. -/
theorem queue_discipline (strategy : σ) {as : List (Act D A)}
    (hrun : Runs (StepOf (logged strat keepAlive)) (initial strategy, []) as (t, log)) :
    pushes log = pops log ++ t.queue ∧ (t.pc = .front ∨ t.pc = .popping → t.queue ≠ []) ∧ PopsAnswered log := by
  have h := queueLog_run hrun
  refine ⟨h.conserved, ?_, h.popped⟩
  rintro (hpc | hpc)
  · exact h.disciplined.front hpc
  · obtain ⟨d, r, -, hhead⟩ := h.disciplined.popping hpc
    intro hempty
    simp [hempty] at hhead

/-- The scraper pushes `1`, whose first exchange breaks; it pushes `2` during the second, which is answered. -/
def interleaved : List (Act ℕ ℕ) :=
  [.next true (.opened (.ok ())), .push 1, .next true .internal, .next true .internal,
    .next true (.sent (.ok (some .connectionReset, ⟨.ok, 0⟩))), .next true .internal, .next true .internal,
    .next true (.opened (.ok ())), .next true .internal, .next true .internal, .push 2,
    .next true (.sent (.ok (none, ⟨.ok, 10⟩))), .next true .internal]

theorem queue_discipline_interleaved : ∃ t log,
    Runs (StepOf (logged (⟨fun s _ => s, fun s _ => some s⟩ : Strategy Unit ℕ ℕ) false)) (initial (), []) interleaved
      (t, log) ∧ pops log = [1] ∧ t.queue = [2] ∧ pushes log = pops log ++ t.queue ∧ PopsAnswered log := by
  have hplay : ∃ s, play (logged (⟨fun s _ => s, fun s _ => some s⟩ : Strategy Unit ℕ ℕ) false) (initial (), [])
      interleaved = some s ∧ pops s.2 = [1] ∧ s.1.queue = [2] := ⟨_, rfl, by decide, rfl⟩
  obtain ⟨⟨t, log⟩, hs, hpops, hqueue⟩ := hplay
  have hdiscipline := queue_discipline _ false () (runs_of_play hs)
  exact ⟨t, log, runs_of_play hs, hpops, hqueue, hdiscipline.1, hdiscipline.2.2⟩

end Thread

end Steps

end TCPClientServer.Client
