import Mathlib.Data.List.Induction
import Mathlib.Tactic.Common

/-!
# Operations under way

Code starts operations that go on by themselves and use some of its resources until they are completed.
What is done is kept in a list: a resource is modified, an operation is started, one is completed. An
operation has a number of its own.

* `Deed`, `underWay` : the operations started and not yet completed;
* `Stable` : between its start and its completion nothing an operation uses is modified, or used by
  another operation that is started;
* `Quiet` : nothing but completions while an operation is under way; `stable_of_quiet`.
-/

namespace TCPClientServer.Basis

inductive Deed (O R : Type) where
  | modified (r : R)
  | started (i : ℕ) (op : O)
  | completed (i : ℕ)
deriving DecidableEq

section Deeds
variable {O R : Type}

/-- The operations under way after a deed. -/
def Deed.after (ops : List (ℕ × O)) : Deed O R → List (ℕ × O)
  | modified _ => ops
  | started i op => ops ++ [(i, op)]
  | completed i => ops.filter fun o => o.1 ≠ i

def underWay (deeds : List (Deed O R)) : List (ℕ × O) := deeds.foldl Deed.after []

variable (uses : O → R → Prop)

/-- A deed that lets the resources of an operation be. -/
def Deed.Spares (op : O) : Deed O R → Prop
  | modified r => ¬ uses op r
  | started _ op' => ∀ r, uses op r → ¬ uses op' r
  | completed _ => True

/-- From its start and as long as it is not completed, the resources of an operation are let be. -/
def Stable (deeds : List (Deed O R)) : Prop :=
  ∀ l i op mid rest, deeds = l ++ .started i op :: (mid ++ rest) → .completed i ∉ mid → ∀ d ∈ mid, d.Spares uses op

/-- Nothing but completions while an operation is under way. -/
def Quiet (deeds : List (Deed O R)) : Prop :=
  ∀ l d rest, deeds = l ++ d :: rest → underWay l = [] ∨ ∃ i, d = .completed i

variable {uses} {l deeds : List (Deed O R)} {d : Deed O R} {i : ℕ} {op : O}

@[simp] theorem underWay_nil : underWay ([] : List (Deed O R)) = [] := rfl

@[simp] theorem underWay_concat (l : List (Deed O R)) (d : Deed O R) :
    underWay (l ++ [d]) = d.after (underWay l) := by
  simp [underWay]

theorem mem_underWay_append (h : (i, op) ∈ underWay l) {mid : List (Deed O R)} (hmid : .completed i ∉ mid) :
    (i, op) ∈ underWay (l ++ mid) := by
  induction mid using List.reverseRecOn with
  | nil => rwa [List.append_nil]
  | append_singleton mid d ih =>
    rw [List.mem_append, not_or, List.mem_singleton] at hmid
    rw [← List.append_assoc, underWay_concat]
    have hmem := ih hmid.1
    cases d with
    | modified r => exact hmem
    | started j op' => exact List.mem_append_left _ hmem
    | completed j =>
      have hne : i ≠ j := fun h => hmid.2 (congrArg Deed.completed h)
      exact List.mem_filter.mpr ⟨hmem, by simpa using hne⟩

theorem quiet_nil : Quiet ([] : List (Deed O R)) := by
  intro l d rest h
  simp at h

theorem Quiet.concat (h : Quiet l) (hd : underWay l = [] ∨ ∃ i, d = .completed i) : Quiet (l ++ [d]) := by
  intro l₁ e rest heq
  rcases List.eq_nil_or_concat rest with rfl | ⟨rest', last, rfl⟩
  · obtain ⟨rfl, rfl⟩ := List.append_singleton_inj.mp heq
    exact hd
  · rw [List.concat_eq_append, ← List.cons_append, ← List.append_assoc] at heq
    exact h l₁ e rest' (List.append_singleton_inj.mp heq).1

/-- **What an operation uses is stable where nothing is done while one is under way.** -/
theorem stable_of_quiet (h : Quiet deeds) : Stable uses deeds := by
  rintro l i op mid rest rfl hcompleted d hd
  obtain ⟨mid₁, mid₂, rfl⟩ := List.append_of_mem hd
  have hmem : (i, op) ∈ underWay (l ++ [.started i op] ++ mid₁) := by
    apply mem_underWay_append
    · rw [underWay_concat]
      exact List.mem_append_right _ (List.mem_singleton_self _)
    · exact fun hmid => hcompleted (List.mem_append_left _ hmid)
  rcases h (l ++ [.started i op] ++ mid₁) d (mid₂ ++ rest) (by simp) with hempty | ⟨j, rfl⟩
  · rw [hempty] at hmem
    cases hmem
  · trivial

theorem Quiet.of_append {l' : List (Deed O R)} (h : Quiet (l ++ l')) : Quiet l := by
  rintro l₁ d rest rfl
  exact h l₁ d (rest ++ l') (by simp)

/-- An operation is started only when none is under way, so that there is never more than one. -/
theorem Quiet.length_underWay_le (h : Quiet deeds) : (underWay deeds).length ≤ 1 := by
  induction deeds using List.reverseRecOn with
  | nil => simp
  | append_singleton deeds d ih =>
    have hlast := h deeds d [] rfl
    have hlen := ih h.of_append
    rw [underWay_concat]
    cases d with
    | modified r => exact hlen
    | started i op =>
      rcases hlast with hempty | ⟨j, hj⟩
      · simp [hempty, Deed.after]
      · cases hj
    | completed i => exact Nat.le_trans (List.length_filter_le _ _) hlen

end Deeds

end TCPClientServer.Basis
