import TCPClientServer.Basis.Stream

/-!
# `Scraper`

The loop that takes one datum after another off the input and pushes it. How a datum is read is left to
the derived class: `getDatum` is a parameter, with what the uninitialised memory of its call holds.

* `start` : the data pushed, over at most so many rounds of the loop;
* `Pushes` : the loop ends and has pushed these data;
* `Pushes.unique` : it ends in one way only.
-/

namespace TCPClientServer.Client
open TCPClientServer.Basis

inductive ScrapeError where
  | badDataError
  | outOfData
  | runtimeError
deriving DecidableEq

section Start
variable {U Data : Type} (getDatum : U → IStream → Except ScrapeError Data × IStream)

/-- `Scraper::start`; `us i` is the uninitialised memory of the call in round `i`. `none` when the rounds
do not suffice. -/
def start (us : Nat → U) : Nat → IStream → Option (List Data)
  | 0, _ => none
  | n + 1, is =>
    if is.ok then
      match getDatum (us 0) is with
      | (.ok d, is) => (start (fun i => us (i + 1)) n is).map (d :: ·)
      | (.error .outOfData, is) => start (fun i => us (i + 1)) n is
      | (.error .badDataError, is) => start (fun i => us (i + 1)) n is
      | (.error .runtimeError, _) => some []
    else some []

/-- The loop on the stream `is` ends, and these data are pushed. -/
def Pushes (us : Nat → U) (is : IStream) (ds : List Data) : Prop :=
  ∃ n, start getDatum us n is = some ds

variable {getDatum}

theorem start_succ {n : Nat} {us : Nat → U} {is : IStream} {ds : List Data}
    (h : start getDatum us n is = some ds) : start getDatum us (n + 1) is = some ds := by
  induction n generalizing us is ds with
  | zero => cases h
  | succ n ih =>
    rw [start] at h ⊢
    cases hok : is.ok with
    | false => simpa [hok] using h
    | true =>
      simp only [hok, if_true] at h ⊢
      rcases hget : getDatum (us 0) is with ⟨e | d, is'⟩
      all_goals simp only [hget] at h ⊢
      · cases e with
        | runtimeError => exact h
        | badDataError => exact ih h
        | outOfData => exact ih h
      · simp only [Option.map_eq_some_iff] at h ⊢
        obtain ⟨ds', hds, rfl⟩ := h
        exact ⟨ds', ih hds, rfl⟩

theorem start_add {n : Nat} {us : Nat → U} {is : IStream} {ds : List Data}
    (h : start getDatum us n is = some ds) (k : Nat) : start getDatum us (n + k) is = some ds := by
  induction k with
  | zero => exact h
  | succ k ih => exact start_succ ih

theorem Pushes.unique {us : Nat → U} {is : IStream} {ds ds' : List Data}
    (h : Pushes getDatum us is ds) (h' : Pushes getDatum us is ds') : ds = ds' := by
  obtain ⟨n, hn⟩ := h
  obtain ⟨m, hm⟩ := h'
  have hn' := start_add hn m
  rw [Nat.add_comm, start_add hm n] at hn'
  exact (Option.some_inj.mp hn').symm

/-! ## One round -/

section Rounds
variable {us : Nat → U} {is is' : IStream} {ds : List Data}

theorem Pushes.stopped (h : is.ok = false) : Pushes getDatum us is [] := ⟨1, by simp [start, h]⟩

theorem Pushes.datum {d : Data} (hok : is.ok = true) (hget : getDatum (us 0) is = (.ok d, is'))
    (h : Pushes getDatum (fun i => us (i + 1)) is' ds) : Pushes getDatum us is (d :: ds) := by
  obtain ⟨n, hn⟩ := h
  exact ⟨n + 1, by simp [start, hok, hget, hn]⟩

theorem Pushes.skip {e : ScrapeError} (he : e ≠ .runtimeError) (hok : is.ok = true)
    (hget : getDatum (us 0) is = (.error e, is')) (h : Pushes getDatum (fun i => us (i + 1)) is' ds) :
    Pushes getDatum us is ds := by
  obtain ⟨n, hn⟩ := h
  refine ⟨n + 1, ?_⟩
  cases e with
  | runtimeError => exact absurd rfl he
  | badDataError => simp [start, hok, hget, hn]
  | outOfData => simp [start, hok, hget, hn]

/-- **The loop ends on a stream exactly when it ends behind the next call**, unless that is the last. -/
theorem exists_pushes_iff {r : Except ScrapeError Data} (hok : is.ok = true) (hget : getDatum (us 0) is = (r, is'))
    (hr : r ≠ .error .runtimeError) : (∃ ds, Pushes getDatum us is ds) ↔
      ∃ ds, Pushes getDatum (fun i => us (i + 1)) is' ds := by
  constructor
  · rintro ⟨ds, n, hn⟩
    cases n with
    | zero => cases hn
    | succ n =>
      simp only [start, hok, if_true, hget] at hn
      rcases r with e | d
      · cases e with
        | runtimeError => exact absurd rfl hr
        | badDataError => exact ⟨ds, n, hn⟩
        | outOfData => exact ⟨ds, n, hn⟩
      · obtain ⟨ds', hds', -⟩ := Option.map_eq_some_iff.mp hn
        exact ⟨ds', n, hds'⟩
  · rintro ⟨ds, h⟩
    rcases r with e | d
    · exact ⟨ds, .skip (fun he => hr (by rw [he])) hok hget h⟩
    · exact ⟨d :: ds, .datum hok hget h⟩

/-- A call that comes back to the stream it was made on is made for ever. -/
theorem not_pushes_of_fixed {e : ScrapeError} (he : e ≠ .runtimeError) (hok : is.ok = true)
    (hget : ∀ u, getDatum u is = (.error e, is)) (us : Nat → U) (ds : List Data) :
    ¬ Pushes getDatum us is ds := by
  rintro ⟨n, hn⟩
  induction n generalizing us with
  | zero => cases hn
  | succ n ih =>
    refine ih (fun i => us (i + 1)) ?_
    simp only [start, hok, if_true, hget] at hn
    cases e with
    | runtimeError => exact absurd rfl he
    | badDataError => exact hn
    | outOfData => exact hn

theorem pushes_congr (hok : is.ok = is'.ok) (h : ∀ u, getDatum u is = getDatum u is') :
    Pushes getDatum us is ds ↔ Pushes getDatum us is' ds := by
  have hstart : ∀ n, start getDatum us n is = start getDatum us n is' := by
    intro n
    cases n with
    | zero => rfl
    | succ n => rw [start, start, hok, h]
  simp only [Pushes, hstart]

end Rounds

end Start

end TCPClientServer.Client
