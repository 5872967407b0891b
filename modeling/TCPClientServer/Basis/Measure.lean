import TCPClientServer.Basis.Runs

/-!
# Measures of runs

Some of the steps of a run are counted. When each of them takes something off a measure that no other step adds
to, a run has at most as many of them as the measure says; and where one of them is possible as long as a goal is
not reached, that many of them lead to the goal.

* `Tally` : a run with the number of its steps that meet a condition;
* `Tally.add_le` : this number and the measure at the end are not more than the measure at the start;
* `exists_tally_of_measure` : the goal is reached.
-/

namespace TCPClientServer.Basis

variable {S E : Type} {Step : S → E → S → Prop} {Q P : S → E → Prop} {I : List E → S → Prop} {K : S → Prop} {μ : S → Nat}
  {s t u : S} {es : List E} {e : E} {n : Nat}

variable (Step Q) in
/-- A run along these events, `n` of which meet the condition. -/
inductive Tally : S → List E → S → Nat → Prop where
  | nil (s : S) : Tally s [] s 0
  | counted {s t u : S} {es : List E} {e : E} {n : Nat} (h : Tally s es t n) (hstep : Step t e u) (hQ : Q t e) :
    Tally s (es ++ [e]) u (n + 1)
  | passed {s t u : S} {es : List E} {e : E} {n : Nat} (h : Tally s es t n) (hstep : Step t e u) (hQ : ¬ Q t e) :
    Tally s (es ++ [e]) u n

theorem Tally.runs (h : Tally Step Q s es t n) : Runs Step s es t := by
  induction h with
  | nil => exact .nil s
  | counted _ hstep _ ih => exact .snoc ih hstep
  | passed _ hstep _ ih => exact .snoc ih hstep

theorem Tally.append {es' : List E} {m : Nat} (h : Tally Step Q s es t n) (h' : Tally Step Q t es' u m) :
    Tally Step Q s (es ++ es') u (n + m) := by
  induction h' with
  | nil => rwa [List.append_nil]
  | counted _ hstep hQ ih =>
    rw [← List.append_assoc]
    exact .counted ih hstep hQ
  | passed _ hstep hQ ih =>
    rw [← List.append_assoc]
    exact .passed ih hstep hQ

theorem Tally.single (hstep : Step s e t) (hQ : Q s e) : Tally Step Q s [e] t 1 := .counted (.nil s) hstep hQ

variable (μ) in
/-- **No more steps are counted than the measure says**, if a step never adds to it and a counted one takes
something off. What holds at the end and of every state before one where it holds, may be used. -/
theorem Tally.add_le (h : Tally Step Q s es t n) (halways : Always Step P s es) (h0 : I [] s) (hend : K t)
    (hback : ∀ t e u, Step t e u → K u → K t)
    (hkeep : ∀ es t e u, I es t → P t e → Step t e u → K u →
      I (es ++ [e]) u ∧ μ u ≤ μ t ∧ (Q t e → μ u < μ t)) : I es t ∧ n + μ t ≤ μ s := by
  induction h with
  | nil => exact ⟨h0, by omega⟩
  | counted h hstep hQ ih =>
    obtain ⟨hinv, hle⟩ := ih halways.init (hback _ _ _ hstep hend)
    obtain ⟨hinv', -, hless⟩ := hkeep _ _ _ _ hinv (halways.last h.runs) hstep hend
    have := hless hQ
    exact ⟨hinv', by omega⟩
  | passed h hstep hQ ih =>
    obtain ⟨hinv, hle⟩ := ih halways.init (hback _ _ _ hstep hend)
    obtain ⟨hinv', hmore, -⟩ := hkeep _ _ _ _ hinv (halways.last h.runs) hstep hend
    exact ⟨hinv', by omega⟩

variable (Step Q μ) in
/-- **The goal is reached** in as many counted steps as the measure says, if one that takes something off is
possible before it. -/
theorem exists_tally_of_measure {G : S → Prop} (h : I es s)
    (hstep : ∀ es s, I es s → ¬ G s → ∃ e t, Step s e t ∧ Q s e ∧ I (es ++ [e]) t ∧ μ t < μ s) :
    ∃ es' t, Tally Step Q s es' t es'.length ∧ es'.length ≤ μ s ∧ I (es ++ es') t ∧ G t := by
  induction hμ : μ s using Nat.strongRecOn generalizing es s with
  | _ m ih =>
    by_cases hG : G s
    · exact ⟨[], s, .nil s, Nat.zero_le _, by rwa [List.append_nil], hG⟩
    obtain ⟨e, t, hst, hQ, hinv, hless⟩ := hstep es s h hG
    obtain ⟨es', u, htally, hlen, hinv', hG'⟩ := ih (μ t) (by omega) hinv rfl
    refine ⟨e :: es', u, ?_, ?_, ?_, hG'⟩
    · rw [List.length_cons, Nat.add_comm]
      exact (Tally.single hst hQ).append htally
    · rw [List.length_cons]
      omega
    · rwa [List.append_assoc, List.singleton_append] at hinv'

end TCPClientServer.Basis
