import TCPClientServer.Client.Thread

/-!
# What the strategy is told

The client's thread tells the strategy of every request before it is sent, and of every response. A request is told
of again each time it is sent again.

* `Call`, `Thread.calls` : the calls of `strategy_.request` and `strategy_.response` in a step;
* `Exchanged` : the calls of exchanges that have come to their end;
* `Told` : all calls so far; `told_moves`, `told_push`.
-/

namespace TCPClientServer.Client
open TCPClientServer.Basis TCPClientServer.Io TCPClientServer.Server

inductive Call (D A : Type) where
  | request (d : D)
  | response (r : Response A)
deriving DecidableEq

/-- Each request is told of once or more often, and then the response to it. -/
inductive Exchanged {D A : Type} : List (D × Response A) → List (Call D A) → Prop where
  | nil : Exchanged [] []
  | snoc {xs : List (D × Response A)} {cs : List (Call D A)} (h : Exchanged xs cs) (d : D) (r : Response A) (n : Nat) :
    Exchanged (xs ++ [(d, r)]) (cs ++ List.replicate (n + 1) (.request d) ++ [.response r])

section Steps
variable {σ D A : Type} {strat : Strategy σ D A} {keepAlive scraperGood : Bool}

namespace Thread

def calls (t : Thread σ D A) (m : Move A) : List (Call D A) :=
  match t.pc, m with
  | .front, .internal => t.queue.head?.toList.map .request
  | .sending _, .sent (.ok (ec, r)) => if react ec r.transmissionStatus = .respond then [.response r] else []
  | _, _ => []

/-- The calls so far: those of the exchanges that are answered, and of the request that comes next as often as it
has been sent. -/
def Told (t : Thread σ D A) (cs : List (Call D A)) : Prop :=
  ∃ before sent, Exchanged t.answered before ∧ cs = before ++ sent ∧
    (∀ c ∈ sent, ∃ d, t.unanswered.head? = some d ∧ c = .request d) ∧ ∀ d, t.pc = .sending d → sent ≠ []

variable {t t' : Thread σ D A} {m : Move A} {cs : List (Call D A)} {d : D}

theorem calls_thrown (t : Thread σ D A) (e : Exn) : t.calls (.sent (.error e)) = [] := by
  unfold calls
  split <;> simp_all

/-- Of an exchange that has failed the strategy is not told. -/
theorem calls_fault (t : Thread σ D A) (e : Fault) (r : Response A) : t.calls (.sent (.ok (some e, r))) = [] := by
  unfold calls
  split
  · contradiction
  · rename_i hmove
    cases hmove
    rw [if_neg]
    intro hreact
    cases (react_respond.mp hreact).1
  · rfl

theorem unanswered_of_ne (hpc : t.pc ≠ .popping) : t.unanswered = t.queue := by
  rw [unanswered]
  split
  · contradiction
  · rfl

/-- The calls so far, where it is known which data are pushed in the end. -/
theorem Told.data (h : t.Told cs) (hd : t.Disciplined) {ds : List D} (hall : t.pushed <+: ds) :
    ∃ before sent, cs = before ++ sent ∧ Exchanged t.answered before ∧ t.answered.map Prod.fst <+: ds ∧
      (∀ c ∈ sent, ∃ d, ds[t.answered.length]? = some d ∧ c = .request d) ∧
      (t.pc = .returned → t.queue = [] → t.pushed = ds → sent = [] ∧ t.answered.map Prod.fst = ds) := by
  obtain ⟨before, sent, hexchanged, hcs, hsent, -⟩ := h
  have hpushed := hd.pushed
  refine ⟨before, sent, hcs, hexchanged, List.IsPrefix.trans ⟨_, hpushed.symm⟩ hall, fun c hc => ?_,
    fun hpc hqueue hds => ?_⟩
  · obtain ⟨d, hhead, rfl⟩ := hsent c hc
    obtain ⟨q, hq⟩ := List.head?_eq_some_iff.mp hhead
    obtain ⟨later, hlater⟩ := hall
    refine ⟨d, ?_, rfl⟩
    rw [← hlater, hpushed, hq, List.append_assoc, List.getElem?_append_right (by simp)]
    simp
  · have hnone : t.unanswered = [] := by rw [unanswered_of_ne (by simp [hpc]), hqueue]
    refine ⟨List.eq_nil_iff_forall_not_mem.mpr fun c hc => ?_, ?_⟩
    · obtain ⟨d, hhead, -⟩ := hsent c hc
      simp [hnone] at hhead
    · rw [← hds, hpushed, hnone, List.append_nil]

theorem Told.silent (h : t.Told cs) (hanswered : t'.answered = t.answered)
    (hhead : ∀ d, t.unanswered.head? = some d → t'.unanswered.head? = some d) (hpc : ∀ d, t'.pc ≠ .sending d) :
    t'.Told cs := by
  obtain ⟨before, sent, hexchanged, hcs, hsent, -⟩ := h
  refine ⟨before, sent, by rwa [hanswered], hcs, fun c hc => ?_, fun d hd => absurd hd (hpc d)⟩
  obtain ⟨d, hd, rfl⟩ := hsent c hc
  exact ⟨d, hhead d hd, rfl⟩

theorem Told.elsewhere (h : t.Told cs) (hfront : t.pc ≠ .front) (hsending : ∀ d, t.pc ≠ .sending d)
    (hpopping : t.pc ≠ .popping) (hanswered : t'.answered = t.answered) (hqueue : t'.queue = t.queue)
    (hpc : (∀ d, t'.pc ≠ .sending d) ∧ t'.pc ≠ .popping) : t'.Told (cs ++ t.calls m) := by
  have hcalls : t.calls m = [] := by
    unfold calls
    split
    · contradiction
    · exact absurd ‹t.pc = .sending _› (hsending _)
    · rfl
  rw [hcalls, List.append_nil]
  refine h.silent hanswered (fun d hd => ?_) hpc.1
  rwa [unanswered_of_ne hpc.2, hqueue, ← unanswered_of_ne hpopping]

theorem told_push (hd : t.Disciplined) (h : t.Told cs) (d : D) : (t.push d).Told cs := by
  obtain ⟨before, sent, hexchanged, hcs, hsent, hsending⟩ := h
  refine ⟨before, sent, hexchanged, hcs, fun c hc => ?_, hsending⟩
  obtain ⟨d', hd', rfl⟩ := hsent c hc
  refine ⟨d', ?_, rfl⟩
  obtain ⟨q, hq⟩ := List.head?_eq_some_iff.mp hd'
  unfold unanswered at hq ⊢
  by_cases hpc : t.pc = .popping
  · obtain ⟨d₁, r, -, hhead⟩ := hd.popping hpc
    obtain ⟨q₁, hq₁⟩ := List.head?_eq_some_iff.mp hhead
    simp only [hpc, hq₁, List.tail_cons] at hq
    simp [push, hpc, hq₁, hq]
  · split at hq
    · contradiction
    · simp [push, hq]

/-- A request is sent, the first time or again. -/
theorem told_front (h : t.Told cs) (hpc : t.pc = .front) {q : List D} (hq : t.queue = d :: q) (strategy : σ) :
    { t with pc := .sending d, strategy }.Told (cs ++ [Call.request d]) := by
  obtain ⟨before, sent, hexchanged, rfl, hsent, -⟩ := h
  refine ⟨before, sent ++ [Call.request d], hexchanged, by rw [List.append_assoc], fun c hc => ?_, by simp⟩
  have hhead : t.unanswered.head? = some d := by simp [unanswered, hpc, hq]
  refine ⟨d, by simp [unanswered, hq], ?_⟩
  rcases List.mem_append.mp hc with hc | hc
  · obtain ⟨d', hd', rfl⟩ := hsent c hc
    rw [hhead] at hd'
    cases hd'
    rfl
  · exact List.mem_singleton.mp hc

theorem told_answered (hd : t.Disciplined) (h : t.Told cs) (hpc : t.pc = .sending d) (r : Response A) (strategy : σ) :
    { t with pc := .popping, strategy, answered := t.answered ++ [(d, r)] }.Told (cs ++ [Call.response r]) := by
  obtain ⟨before, sent, hexchanged, rfl, hsent, hsending⟩ := h
  have hall : ∀ c ∈ sent, c = .request d := fun c hc => by
    obtain ⟨d', hd', rfl⟩ := hsent c hc
    have hhead : t.unanswered.head? = some d := by simpa [unanswered, hpc] using hd.sending d hpc
    rw [hhead] at hd'
    cases hd'
    rfl
  obtain ⟨n, hn⟩ := Nat.exists_eq_succ_of_ne_zero (mt List.length_eq_zero_iff.mp (hsending d hpc))
  have hsent' : sent = List.replicate (n + 1) (.request d) := List.eq_replicate_iff.mpr ⟨hn, hall⟩
  exact ⟨_, [], .snoc hexchanged d r n, by rw [hsent', List.append_nil], by simp, by simp⟩

/-- **Every step of the thread tells the strategy what it should**, unless its assertion fails. -/
theorem told_moves (hd : t.Disciplined) (h : t.Told cs) (hmoves : Moves strat keepAlive scraperGood t m t')
    (hassertion : ∀ r, t'.pc ≠ .halted (.assertion r)) : t'.Told (cs ++ t.calls m) := by
  cases hmoves with
  | front hpc d q hq =>
    have hcalls : t.calls .internal = [.request d] := by simp [calls, hpc, hq]
    rw [hcalls]
    exact told_front h hpc hq _
  | sent d hpc result =>
    have hqueue : t.unanswered = t.queue := unanswered_of_ne (by simp [hpc])
    cases result with
    | error e =>
      rw [calls_thrown, List.append_nil]
      exact h.silent rfl (fun d' hd' => by rwa [hqueue] at hd') (by simp [onSent])
    | ok answer =>
      obtain ⟨ec, r⟩ := answer
      have hcalls : t.calls (.sent (.ok (ec, r))) = if react ec r.transmissionStatus = .respond then [Call.response r]
          else [] := by simp [calls, hpc]
      rw [hcalls]
      unfold onSent at hassertion ⊢
      dsimp only at hassertion ⊢
      cases hreact : react ec r.transmissionStatus with
      | throws fault =>
        rw [if_neg (by simp), List.append_nil]
        exact h.silent rfl (fun d' hd' => by rwa [hqueue] at hd') (by simp)
      | reconnect =>
        rw [if_neg (by simp), List.append_nil]
        exact h.silent rfl (fun d' hd' => by rwa [hqueue] at hd') (by simp)
      | respond =>
        rw [hreact] at hassertion
        dsimp only at hassertion ⊢
        cases hresponse : strat.response t.strategy r with
        | none =>
          rw [hresponse] at hassertion
          exact absurd rfl (hassertion r)
        | some strategy =>
          rw [if_pos rfl]
          exact told_answered hd h hpc r strategy
  | pop hpc =>
    rw [show t.calls .internal = [] by simp [calls, hpc], List.append_nil]
    exact h.silent rfl (fun d hd => by simpa [unanswered, hpc] using hd) (by simp)
  | opened hpc => exact h.elsewhere (by simp [hpc]) (by simp [hpc]) (by simp [hpc]) rfl rfl (by simp)
  | notOpened hpc e => exact h.elsewhere (by simp [hpc]) (by simp [hpc]) (by simp [hpc]) rfl rfl (by simp)
  | empty hpc hq => exact h.elsewhere (by simp [hpc]) (by simp [hpc]) (by simp [hpc]) rfl rfl (by simp)
  | nonempty hpc hq => exact h.elsewhere (by simp [hpc]) (by simp [hpc]) (by simp [hpc]) rfl rfl (by simp)
  | keepAlive connectionOk hpc =>
    refine h.elsewhere (by simp [hpc]) (by simp [hpc]) (by simp [hpc]) rfl rfl ?_
    cases keepAlive with
    | true => exact (afterTest_ne connectionOk true).2
    | false => simp
  | testedEmpty connectionOk hpc hq => exact h.elsewhere (by simp [hpc]) (by simp [hpc]) (by simp [hpc]) rfl rfl (by simp)
  | testedNonempty connectionOk hpc hq =>
    exact h.elsewhere (by simp [hpc]) (by simp [hpc]) (by simp [hpc]) rfl rfl (afterTest_ne connectionOk true).2
  | testedScraper connectionOk hpc =>
    exact h.elsewhere (by simp [hpc]) (by simp [hpc]) (by simp [hpc]) rfl rfl (afterTest_ne connectionOk scraperGood).2

end Thread

end Steps

end TCPClientServer.Client
