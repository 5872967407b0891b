import Mathlib.Data.List.Induction
import Mathlib.Tactic.Common

/-!
# Runs of a labelled transition system

A system is a relation `Step s e t`: in state `s` the event `e` leads to `t`. A run is a list of events
taken one after another.

* `Runs` : the runs, with `Runs.append` and `runs_append_iff`;
* `Runs.invariant` : what every step keeps, of the state and of the events so far, holds at the end;
* `Always` : a condition on every state and event of a run; `Always.runs_invariant` : where it enables each
  step, the run exists and keeps its invariants;
* `Runs.comes_about_iff` : what comes about by steps and stays;
* `Runs.project`, `Runs.simulate` : a second system follows event by event, skipping some of them;
* `play`, `alongside`, `guarded` : a system given by a function; `runs_of_play`, `always_of_alongside` and
  `runs_of_play_guarded` for runs that are evaluated;
* `outputs` : what a system puts out, step by step; `Runs.outputs_invariant` : what every step keeps of it.
-/

namespace TCPClientServer.Basis

variable {S E : Type} (Step : S → E → S → Prop)

inductive Runs : S → List E → S → Prop where
  | nil (s : S) : Runs s [] s
  | snoc {s t u : S} {es : List E} {e : E} (h : Runs s es t) (hstep : Step t e u) : Runs s (es ++ [e]) u

/-- Wherever a run from `s` along these events has got to, the condition holds of the state and the event
that is next. -/
def Always (P : S → E → Prop) (s : S) (es : List E) : Prop :=
  ∀ es₁ e es₂ t, es = es₁ ++ e :: es₂ → Runs Step s es₁ t → P t e

variable {Step} {s t u : S} {es es' : List E} {e : E}

theorem Runs.single (h : Step s e t) : Runs Step s [e] t := .snoc (.nil s) h

theorem Runs.append (h : Runs Step s es t) (h' : Runs Step t es' u) : Runs Step s (es ++ es') u := by
  induction h' with
  | nil => rwa [List.append_nil]
  | snoc _ hstep ih =>
    rw [← List.append_assoc]
    exact .snoc ih hstep

/-- **What every step keeps holds after a run.** -/
theorem Runs.invariant {I : List E → S → Prop} (h : Runs Step s es t) (h0 : I [] s)
    (hkeep : ∀ es t e u, Runs Step s es t → I es t → Step t e u → I (es ++ [e]) u) : I es t := by
  induction h with
  | nil => exact h0
  | snoc h hstep ih => exact hkeep _ _ _ _ h ih hstep

theorem runs_nil_iff : Runs Step s [] t ↔ s = t := by
  constructor
  · intro h
    generalize hes : ([] : List E) = es at h
    cases h with
    | nil => rfl
    | snoc _ _ => simp at hes
  · rintro rfl
    exact .nil s

theorem runs_snoc_iff : Runs Step s (es ++ [e]) u ↔ ∃ t, Runs Step s es t ∧ Step t e u := by
  constructor
  · intro h
    generalize hes : es ++ [e] = es' at h
    cases h with
    | nil => simp at hes
    | snoc h hstep =>
      obtain ⟨rfl, rfl⟩ := List.append_singleton_inj.mp hes
      exact ⟨_, h, hstep⟩
  · rintro ⟨t, h, hstep⟩
    exact .snoc h hstep

theorem runs_single_iff : Runs Step s [e] t ↔ Step s e t := by
  rw [← List.nil_append [e], runs_snoc_iff]
  simp only [runs_nil_iff, exists_eq_left']

theorem runs_append_iff : Runs Step s (es ++ es') u ↔ ∃ t, Runs Step s es t ∧ Runs Step t es' u := by
  refine ⟨fun h => ?_, fun ⟨t, h, h'⟩ => h.append h'⟩
  induction es' using List.reverseRecOn generalizing u with
  | nil => exact ⟨u, by rwa [List.append_nil] at h, .nil u⟩
  | append_singleton es' e ih =>
    rw [← List.append_assoc, runs_snoc_iff] at h
    obtain ⟨v, hv, hstep⟩ := h
    obtain ⟨t, ht, ht'⟩ := ih hv
    exact ⟨t, ht, .snoc ht' hstep⟩

theorem runs_cons_iff : Runs Step s (e :: es) u ↔ ∃ t, Step s e t ∧ Runs Step t es u := by
  rw [← List.singleton_append, runs_append_iff]
  simp only [runs_single_iff]

theorem Always.init {P : S → E → Prop} (h : Always Step P s (es ++ [e])) : Always Step P s es := by
  intro es₁ e₁ es₂ t hes hruns
  exact h es₁ e₁ (es₂ ++ [e]) t (by simp [hes]) hruns

theorem always_nil (P : S → E → Prop) (s : S) : Always Step P s [] := by
  intro es₁ e es₂ t hes
  simp at hes

theorem Always.snoc {P : S → E → Prop} (es : List E) (e : E) (h : Always Step P s es)
    (hlast : ∀ t, Runs Step s es t → P t e) : Always Step P s (es ++ [e]) := by
  intro es₁ e₁ es₂ t hes hruns
  rcases List.eq_nil_or_concat es₂ with rfl | ⟨es₃, e₂, rfl⟩
  · obtain ⟨rfl, rfl⟩ := List.append_singleton_inj.mp hes
    exact hlast t hruns
  · rw [List.concat_eq_append, ← List.cons_append, ← List.append_assoc] at hes
    obtain ⟨rfl, -⟩ := List.append_singleton_inj.mp hes
    exact h es₁ e₁ es₃ t rfl hruns

theorem Always.cons {P : S → E → Prop} (he : P s e) (h : ∀ u, Step s e u → Always Step P u es) :
    Always Step P s (e :: es) := by
  intro es₁ e₁ es₂ t heq hruns
  cases es₁ with
  | nil =>
    obtain ⟨rfl, rfl⟩ := List.cons_eq_cons.mp heq
    rwa [← runs_nil_iff.mp hruns]
  | cons e₀ es₁ =>
    obtain ⟨rfl, rfl⟩ := List.cons_eq_cons.mp heq
    obtain ⟨u, hstep, hruns⟩ := runs_cons_iff.mp hruns
    exact h u hstep es₁ e₁ es₂ t rfl hruns

theorem Always.last {P : S → E → Prop} (h : Always Step P s (es ++ [e])) (hruns : Runs Step s es t) : P t e :=
  h es e [] t rfl hruns

theorem Runs.invariant_of_always {P : S → E → Prop} {I : List E → S → Prop} (h : Runs Step s es t)
    (halways : Always Step P s es) (h0 : I [] s)
    (hkeep : ∀ es t e u, I es t → P t e → Step t e u → I (es ++ [e]) u) : I es t := by
  induction h with
  | nil => exact h0
  | snoc h hstep ih => exact hkeep _ _ _ _ (ih halways.init) (halways.last h) hstep

/-- **What comes about by steps and stays** has come about in one of the steps of the run: `C` says of a step that it
brings it about. -/
theorem Runs.comes_about_iff {Q : S → Prop} {C : S → E → Prop} (hkeep : ∀ t e u, Q t → Step t e u → Q u)
    (hstep : ∀ es t e u, Runs Step s es t → ¬ Q t → Step t e u → (Q u ↔ C t e)) (h : Runs Step s es t) (h0 : ¬ Q s) :
    Q t ↔ ∃ before e after u v, es = before ++ e :: after ∧ Runs Step s before u ∧ C u e ∧ Step u e v ∧
      Runs Step v after t := by
  constructor
  · intro hQ
    induction h with
    | nil => exact absurd hQ h0
    | @snoc u t es e h hlast ih =>
      by_cases hu : Q u
      · obtain ⟨before, e', after, v, w, rfl, hbefore, hC, hcause, hafter⟩ := ih hu
        exact ⟨before, e', after ++ [e], v, w, by simp, hbefore, hC, hcause, .snoc hafter hlast⟩
      · exact ⟨es, e, [], u, t, rfl, h, (hstep es u e t h hu hlast).mp hQ, hlast, .nil t⟩
  · rintro ⟨before, e, after, u, v, -, hbefore, hC, hcause, hafter⟩
    have hv : Q v := by
      by_cases hu : Q u
      · exact hkeep u e v hu hcause
      · exact (hstep before u e v hbefore hu hcause).mpr hC
    exact hafter.invariant (I := fun _ t => Q t) hv fun _ t e w _ hQ hstep => hkeep t e w hQ hstep

/-! ## Two runs side by side -/

variable (Step) in
/-- Wherever two runs have got to after equally many events, the condition holds of the two states and the
events that are next. -/
def Always₂ (P : S → S → E → E → Prop) (s s' : S) (es es' : List E) : Prop :=
  ∀ es₁ e es₂ es₁' e' es₂' t t', es = es₁ ++ e :: es₂ → es' = es₁' ++ e' :: es₂' → es₁.length = es₁'.length →
    Runs Step s es₁ t → Runs Step s' es₁' t' → P t t' e e'

theorem Always₂.init {P : S → S → E → E → Prop} {s' : S} {e' : E}
    (h : Always₂ Step P s s' (es ++ [e]) (es' ++ [e'])) : Always₂ Step P s s' es es' := by
  intro es₁ e₁ es₂ es₁' e₁' es₂' t t' hes hes' hlen hruns hruns'
  exact h es₁ e₁ (es₂ ++ [e]) es₁' e₁' (es₂' ++ [e']) t t' (by simp [hes]) (by simp [hes']) hlen hruns hruns'

theorem always₂_of_map_eq {B : Type} {g : E → B} {s' : S} (h : es.map g = es'.map g) :
    Always₂ Step (fun _ _ e e' => g e = g e') s s' es es' := by
  rintro es₁ e es₂ es₁' e' es₂' t t' rfl rfl hlen - -
  rw [List.map_append, List.map_append, List.map_cons, List.map_cons] at h
  exact (List.cons.inj (List.append_inj h (by simpa using hlen)).2).1

theorem Always₂.and {P Q : S → S → E → E → Prop} {s' : S} (h : Always₂ Step P s s' es es')
    (h' : Always₂ Step Q s s' es es') : Always₂ Step (fun t t' e e' => P t t' e e' ∧ Q t t' e e') s s' es es' :=
  fun es₁ e es₂ es₁' e' es₂' t t' hes hes' hlen hruns hruns' =>
    ⟨h es₁ e es₂ es₁' e' es₂' t t' hes hes' hlen hruns hruns',
      h' es₁ e es₂ es₁' e' es₂' t t' hes hes' hlen hruns hruns'⟩

/-- **What every two steps that meet the condition keep** between two states holds after two runs. -/
theorem Runs.invariant₂ {P : S → S → E → E → Prop} {I : S → S → Prop} {s' t' : S} (h : Runs Step s es t)
    (h' : Runs Step s' es' t') (hlen : es.length = es'.length) (halways : Always₂ Step P s s' es es') (h0 : I s s')
    (hkeep : ∀ t t' e e' u u', I t t' → P t t' e e' → Step t e u → Step t' e' u' → I u u') : I t t' := by
  induction h generalizing es' t' with
  | nil =>
    obtain rfl := List.length_eq_zero_iff.mp hlen.symm
    rwa [← runs_nil_iff.mp h']
  | @snoc t _ es e h hstep ih =>
    cases h' with
    | nil => simp at hlen
    | @snoc v _ ds d h' hstep' =>
      have hlen' : es.length = ds.length := by simpa using hlen
      have hcond : P t v e d := halways es e [] ds d [] t v rfl rfl hlen' h h'
      exact hkeep t v e d _ _ (ih h' hlen' halways.init) hcond hstep hstep'

/-- **A run exists and keeps the invariant** when the condition and the invariant enable each step and keep
the invariant over it. -/
theorem Always.runs_invariant {P : S → E → Prop} {I : List E → S → Prop} (h : Always Step P s es) (h0 : I [] s)
    (hstep : ∀ es₁ t e, es₁ ++ [e] <+: es → I es₁ t → P t e → ∃ u, Step t e u ∧ I (es₁ ++ [e]) u) :
    ∃ t, Runs Step s es t ∧ I es t := by
  induction es using List.reverseRecOn with
  | nil => exact ⟨s, .nil s, h0⟩
  | append_singleton es e ih =>
    obtain ⟨t, ht, hinv⟩ := ih h.init fun es₁ t e₁ hes =>
      hstep es₁ t e₁ (hes.trans (List.prefix_append es [e]))
    obtain ⟨u, hu, hinv'⟩ := hstep es t e List.prefix_rfl hinv (h.last ht)
    exact ⟨u, .snoc ht hu, hinv'⟩

/-- **A run exists** when its condition enables every step. -/
theorem Always.runs {P : S → E → Prop} (hstep : ∀ t e, P t e → ∃ u, Step t e u) (h : Always Step P s es) :
    ∃ t, Runs Step s es t := by
  obtain ⟨t, ht, -⟩ := h.runs_invariant (I := fun _ _ => True) trivial fun _ t e _ _ he => by
    obtain ⟨u, hu⟩ := hstep t e he
    exact ⟨u, hu, trivial⟩
  exact ⟨t, ht⟩

/-- **A second system follows a run**, by the images of the events that have one, when each step of the first is
followed by one of the second or skipped by it. -/
theorem Runs.project {S' E' : Type} (Step' : S' → E' → S' → Prop) {R : S → S' → Prop} (s' : S') (h : Runs Step s es t)
    (g : E → Option E') (h0 : R s s')
    (hkeep : ∀ t t' e u e', R t t' → Step t e u → g e = some e' → ∃ u', Step' t' e' u' ∧ R u u')
    (hskip : ∀ t t' e u, R t t' → Step t e u → g e = none → R u t') :
    ∃ t', Runs Step' s' (es.filterMap g) t' ∧ R t t' := by
  induction h with
  | nil => exact ⟨s', .nil s', h0⟩
  | @snoc t u es e _ hstep ih =>
    obtain ⟨t', ht', hR⟩ := ih
    rw [List.filterMap_append]
    cases hg : g e with
    | some e' =>
      obtain ⟨u', hu', hR'⟩ := hkeep _ _ _ _ _ hR hstep hg
      refine ⟨u', ?_, hR'⟩
      rw [List.filterMap_cons_some hg, List.filterMap_nil]
      exact .snoc ht' hu'
    | none =>
      refine ⟨t', ?_, hskip _ _ _ _ hR hstep hg⟩
      rw [List.filterMap_cons_none hg, List.filterMap_nil, List.append_nil]
      exact ht'

theorem Runs.simulate {S' : Type} {Step' : S' → E → S' → Prop} {R : S → S' → Prop} {s' : S'}
    (h : Runs Step s es t) (keep : E → Bool) (h0 : R s s')
    (hkeep : ∀ t t' e u, R t t' → Step t e u → keep e = true → ∃ u', Step' t' e u' ∧ R u u')
    (hskip : ∀ t t' e u, R t t' → Step t e u → keep e = false → R u t') :
    ∃ t', Runs Step' s' (es.filter keep) t' ∧ R t t' := by
  rw [← List.filterMap_eq_filter]
  refine h.project _ _ _ h0 (fun t t' e u e' hR hstep he => ?_) fun t t' e u hR hstep he => ?_
  · obtain ⟨rfl, hk⟩ := Option.guard_eq_some_iff.mp he
    exact hkeep t t' e u hR hstep hk
  · exact hskip t t' e u hR hstep (by simpa using he)

/-! ## Systems given by a function -/

/-- The state after the events, where each of them is possible. -/
def play (next : S → E → Option S) : S → List E → Option S
  | s, [] => some s
  | s, e :: es => (next s e).bind fun t => play next t es

def StepOf (next : S → E → Option S) (s : S) (e : E) (t : S) : Prop := next s e = some t

theorem runs_of_play {next : S → E → Option S} {es : List E} {s t : S} (h : play next s es = some t) :
    Runs (StepOf next) s es t := by
  induction es generalizing s with
  | nil =>
    obtain rfl : s = t := Option.some.inj h
    exact .nil s
  | cons e es ih =>
    rw [play, Option.bind_eq_some_iff] at h
    obtain ⟨u, hu, h⟩ := h
    exact (Runs.single hu).append (ih h)

theorem play_of_runs {next : S → E → Option S} {es : List E} {s t : S} (h : Runs (StepOf next) s es t) :
    play next s es = some t := by
  induction es generalizing s with
  | nil => rw [play, runs_nil_iff.mp h]
  | cons e es ih =>
    obtain ⟨u, hu, h⟩ := runs_cons_iff.mp h
    rw [play, show next s e = some u from hu, Option.bind_some, ih h]

/-- What is put out along these events, where each step puts something out. -/
def outputs {O : Type} (next : S → E → Option S) (out : S → E → List O) : S → List E → List O
  | _, [] => []
  | s, e :: es => (next s e).elim [] fun t => out s e ++ outputs next out t es

theorem outputs_concat {O : Type} {next : S → E → Option S} {es : List E} {s t u : S} {e : E} (out : S → E → List O)
    (h : Runs (StepOf next) s es t) (hstep : next t e = some u) :
    outputs next out s (es ++ [e]) = outputs next out s es ++ out t e := by
  induction es generalizing s with
  | nil =>
    obtain rfl := runs_nil_iff.mp h
    simp [outputs, hstep]
  | cons e₁ es ih =>
    obtain ⟨v, hv, h⟩ := runs_cons_iff.mp h
    have hv' : next s e₁ = some v := hv
    simp only [List.cons_append, outputs, hv', Option.elim_some, ih h, List.append_assoc]

/-- **What every step keeps** of the state and of what has been put out so far holds at the end. -/
theorem Runs.outputs_invariant {O : Type} {next : S → E → Option S} {es : List E} {s t : S} (out : S → E → List O)
    {I : List O → S → Prop} (h : Runs (StepOf next) s es t) (h0 : I [] s)
    (hkeep : ∀ os t e u, I os t → next t e = some u → I (os ++ out t e) u) : I (outputs next out s es) t := by
  induction h with
  | nil => exact h0
  | snoc h hstep ih =>
    rw [outputs_concat out h hstep]
    exact hkeep _ _ _ _ ih hstep

def alongside (next : S → E → Option S) (P : S → E → Prop) [∀ s e, Decidable (P s e)] : S → List E → Bool
  | _, [] => true
  | s, e :: es => decide (P s e) && (next s e).all fun t => alongside next P t es

theorem always_of_alongside (next : S → E → Option S) {P : S → E → Prop} [∀ s e, Decidable (P s e)]
    (hnext : ∀ s e t, Step s e t → next s e = some t) {es : List E} {s : S}
    (h : alongside next P s es = true) : Always Step P s es := by
  induction es generalizing s with
  | nil => exact always_nil P s
  | cons e es ih =>
    rw [alongside, Bool.and_eq_true, decide_eq_true_eq] at h
    obtain ⟨he, hall⟩ := h
    refine .cons he fun u hstep => ih ?_
    rwa [hnext s e u hstep, Option.all_some] at hall

def guarded (next : S → E → Option S) (P : S → E → Prop) [∀ s e, Decidable (P s e)] (s : S) (e : E) : Option S :=
  if P s e then next s e else none

theorem runs_of_play_guarded {next : S → E → Option S} {P : S → E → Prop} [∀ s e, Decidable (P s e)] {es : List E}
    {s t : S} (h : play (guarded next P) s es = some t) : Runs (StepOf next) s es t ∧ Always (StepOf next) P s es := by
  induction es generalizing s with
  | nil =>
    obtain rfl : s = t := Option.some.inj h
    exact ⟨.nil s, always_nil P s⟩
  | cons e es ih =>
    rw [play, Option.bind_eq_some_iff] at h
    obtain ⟨u, hu, h⟩ := h
    rw [guarded, Option.ite_none_right_eq_some] at hu
    obtain ⟨he, hu⟩ := hu
    obtain ⟨hruns, halways⟩ := ih h
    refine ⟨(Runs.single hu).append hruns, .cons he fun v hv => ?_⟩
    rw [StepOf, hu, Option.some_inj] at hv
    rwa [← hv]

def alongside₂ (next : S → E → Option S) (P : S → S → E → E → Prop) [∀ s s' e e', Decidable (P s s' e e')] :
    S → S → List E → List E → Bool
  | s, s', e :: es, e' :: es' => decide (P s s' e e') &&
      (next s e).all fun t => (next s' e').all fun t' => alongside₂ next P t t' es es'
  | _, _, _, _ => true

theorem always₂_of_alongside₂ (next : S → E → Option S) {P : S → S → E → E → Prop}
    [∀ s s' e e', Decidable (P s s' e e')] {es es' : List E} {s s' : S}
    (h : alongside₂ next P s s' es es' = true) : Always₂ (StepOf next) P s s' es es' := by
  induction es generalizing s s' es' with
  | nil =>
    intro es₁ e es₂ es₁' e' es₂' t t' hes
    simp at hes
  | cons e es ih =>
    intro es₁ e₁ es₂ es₁' e₁' es₂' t t' hes hes' hlen hruns hruns'
    cases es' with
    | nil => simp at hes'
    | cons e' es' =>
      rw [alongside₂, Bool.and_eq_true, decide_eq_true_eq] at h
      obtain ⟨he, hall⟩ := h
      cases es₁ with
      | nil =>
        obtain rfl := List.length_eq_zero_iff.mp hlen.symm
        obtain ⟨rfl, rfl⟩ := List.cons_eq_cons.mp hes
        obtain ⟨rfl, rfl⟩ := List.cons_eq_cons.mp hes'
        rwa [← runs_nil_iff.mp hruns, ← runs_nil_iff.mp hruns']
      | cons e₀ es₁ =>
        cases es₁' with
        | nil => simp at hlen
        | cons e₀' es₁' =>
          obtain ⟨rfl, rfl⟩ := List.cons_eq_cons.mp hes
          obtain ⟨rfl, rfl⟩ := List.cons_eq_cons.mp hes'
          obtain ⟨u, hstep, hruns⟩ := runs_cons_iff.mp hruns
          obtain ⟨u', hstep', hruns'⟩ := runs_cons_iff.mp hruns'
          rw [hstep, Option.all_some, hstep', Option.all_some] at hall
          exact ih hall es₁ e₁ es₂ es₁' e₁' es₂' t t' rfl rfl (by simpa using hlen) hruns hruns'

end TCPClientServer.Basis
