import TCPClientServer.Calculator.Scraping

/-!
# When the scraper ends

The loop of `Scraper::start` tests whether the stream has failed, and `get_datum` whether it has come to its
end. A last line without a newline leaves a stream that is at its end and has not failed: every further
call of `get_datum` finds no data, and the loop goes on for ever.

* `readLine_line`, `readLine_long`, `readLine_last` : what the loop over lines leaves of a text;
* `scraper_ends_iff` : the loop ends when the last line is empty or a line does not fit the buffer.
-/

namespace TCPClientServer.Calculator
open TCPClientServer.Basis TCPClientServer.Client

/-- The stream when a last line without a newline has been read. -/
def drained : IStream := { IStream.ofText [] with eof := true }

theorem readLine_of_not_good {is : IStream} (h : is.good = false) : readLine is = ([], is) := by
  rw [readLine_eq, if_neg (by simp [h])]

/-- A line of which the C string is empty is passed over. -/
theorem readLine_line {l : Bytes} (hl : newline ∉ l) (hlen : l.length < maxInputLength) (t : Bytes) :
    readLine (.ofText (l ++ newline :: t)) = if cstr l = [] then readLine (.ofText t) else (cstr l, .ofText t) := by
  rw [readLine_eq, if_pos (good_ofText _), IStream.getline_line hl hlen]

theorem readLine_long {l t : Bytes} (hl : newline ∉ l) (hlen : maxInputLength ≤ l.length)
    (ht : ∀ b ∈ t.head?, b = newline) : readLine (.ofText (l ++ t)) =
      (cstr (l.take (maxInputLength - 1)), failed (l.drop (maxInputLength - 1) ++ t)) := by
  rw [readLine_eq, if_pos (good_ofText _), IStream.getline_long hl (by decide) hlen ht]
  dsimp only
  split
  · rename_i hnil
    rw [hnil]
    exact readLine_of_not_good rfl
  · rfl

theorem readLine_last {l : Bytes} (hl : newline ∉ l) (hne : l ≠ []) (hlen : l.length < maxInputLength) :
    readLine (.ofText l) = (cstr l, drained) := by
  rw [readLine_eq, if_pos (good_ofText _), IStream.getline_last hl hne hlen]
  dsimp only
  split
  · rename_i hnil
    rw [hnil]
    exact readLine_of_not_good rfl
  · rfl

section Ending
variable (clientId : Bytes) (us : Nat → Locals)

/-- A call that leaves a stream which is not bad does not end the loop by itself. -/
theorem getDatum_of_readLine (u : Locals) {is is' : IStream} {buffer : Bytes} (h : readLine is = (buffer, is'))
    (hbad : is'.bad = false) : ∃ r, getDatum clientId u is = (r, is') ∧ r ≠ .error .runtimeError := by
  unfold getDatum
  simp only [h, hbad, Bool.false_eq_true, if_false]
  split
  · exact ⟨_, rfl, by decide⟩
  · refine ⟨_, rfl, fun herror => ?_⟩
    cases parseDatum_error herror

theorem getDatum_drained (u : Locals) : getDatum clientId u drained = (.error .outOfData, drained) := rfl

/-- **No datum and no end** comes of a stream at its end. -/
theorem not_pushes_drained (us : Nat → Locals) (ds : List ClientData) : ¬ Pushes (getDatum clientId) us drained ds :=
  not_pushes_of_fixed (by decide) rfl (getDatum_drained clientId) us ds

theorem not_pushes_last {l : Bytes} (hl : newline ∉ l) (hne : l ≠ []) (hlen : l.length < maxInputLength) :
    ¬ ∃ ds, Pushes (getDatum clientId) us (.ofText l) ds := by
  obtain ⟨r, hget, hr⟩ := getDatum_of_readLine clientId (us 0) (readLine_last hl hne hlen) rfl
  rw [exists_pushes_iff rfl hget hr]
  rintro ⟨ds, h⟩
  exact not_pushes_drained clientId _ ds h

theorem pushes_long {l t : Bytes} (hl : newline ∉ l) (hlen : maxInputLength ≤ l.length)
    (ht : ∀ b ∈ t.head?, b = newline) : ∃ ds, Pushes (getDatum clientId) us (.ofText (l ++ t)) ds := by
  obtain ⟨r, hget, hr⟩ := getDatum_of_readLine clientId (us 0) (readLine_long hl hlen ht) rfl
  rw [exists_pushes_iff rfl hget hr]
  exact ⟨[], .stopped rfl⟩

theorem pushes_line_iff {l : Bytes} (hl : newline ∉ l) (hlen : l.length < maxInputLength) (t : Bytes) :
    ∃ us', (∃ ds, Pushes (getDatum clientId) us (.ofText (l ++ newline :: t)) ds) ↔
      ∃ ds, Pushes (getDatum clientId) us' (.ofText t) ds := by
  have hread := readLine_line hl hlen t
  by_cases hblank : cstr l = []
  · rw [if_pos hblank] at hread
    refine ⟨us, exists_congr fun ds => pushes_congr rfl fun u => ?_⟩
    simp only [getDatum, hread]
  · rw [if_neg hblank] at hread
    obtain ⟨r, hget, hr⟩ := getDatum_of_readLine clientId (us 0) hread rfl
    exact ⟨_, exists_pushes_iff rfl hget hr⟩

end Ending

/-! ## The lines of a text -/

theorem exists_line (t : Bytes) : newline ∉ t ∨ ∃ l u, t = l ++ newline :: u ∧ newline ∉ l := by
  by_cases h : newline ∈ t
  · exact .inr (List.eq_append_cons_of_mem h)
  · exact .inl h

/-- The last line is empty, as behind a newline, or a line does not fit the buffer. -/
def Ended (t : Bytes) : Prop :=
  (t.splitOn newline).getLast? = some [] ∨ ∃ l ∈ t.splitOn newline, maxInputLength ≤ l.length

theorem ended_line_iff {l : Bytes} (hl : newline ∉ l) (hlen : l.length < maxInputLength) (t : Bytes) :
    Ended (l ++ newline :: t) ↔ Ended t := by
  have hlast : (l :: t.splitOn newline).getLast? = (t.splitOn newline).getLast? := by
    obtain ⟨l', ls, hls⟩ := List.exists_cons_of_ne_nil (List.splitOn_ne_nil newline t)
    rw [hls, List.getLast?_cons_cons]
  rw [Ended, Ended, List.splitOn_append_cons_self_of_not_mem hl, hlast]
  simp [not_le.mpr hlen]

theorem ended_last_iff {l : Bytes} (hl : newline ∉ l) : Ended l ↔ l = [] ∨ maxInputLength ≤ l.length := by
  rw [Ended, List.splitOn_eq_singleton hl]
  simp

theorem ended_long {l t : Bytes} (hl : newline ∉ l) (hlen : maxInputLength ≤ l.length) : Ended (l ++ newline :: t) := by
  refine .inr ⟨l, ?_, hlen⟩
  rw [List.splitOn_append_cons_self_of_not_mem hl]
  exact List.mem_cons_self

/-- **The scraper ends** exactly when the text is empty or ends in a newline, or a line of it does not fit the
buffer. -/
theorem scraper_ends_iff (clientId : Bytes) (us : Nat → Locals) (t : Bytes) :
    (∃ ds, Pushes (getDatum clientId) us (.ofText t) ds) ↔ Ended t := by
  induction h : t.length using Nat.strong_induction_on generalizing t us with
  | _ n ih =>
    rcases exists_line t with hl | ⟨l, u, rfl, hl⟩
    · rw [ended_last_iff hl]
      by_cases hnil : t = []
      · subst hnil
        exact iff_of_true ⟨[], pushes_end⟩ (.inl rfl)
      by_cases hlen : t.length < maxInputLength
      · exact iff_of_false (not_pushes_last clientId us hl hnil hlen) (by simp [hnil, hlen])
      · have hlong := pushes_long clientId us (t := []) hl (not_lt.mp hlen) (by simp)
        rw [List.append_nil] at hlong
        exact iff_of_true hlong (.inr (not_lt.mp hlen))
    · by_cases hlen : l.length < maxInputLength
      · obtain ⟨us', hiff⟩ := pushes_line_iff clientId us hl hlen u
        rw [hiff, ended_line_iff hl hlen]
        refine ih u.length ?_ us' u rfl
        rw [← h, List.length_append, List.length_cons]
        omega
      · exact iff_of_true (pushes_long clientId us hl (not_lt.mp hlen) (by simp)) (ended_long hl (not_lt.mp hlen))

theorem scraper_does_not_end : ¬ ∀ (clientId : Bytes) (us : Nat → Locals) (t : Bytes),
    ∃ ds, Pushes (getDatum clientId) us (.ofText t) ds := fun h =>
  not_pushes_last [] (fun _ => .zero) (by decide) (by decide) (by decide) (h [] (fun _ => .zero) sumLine)

end TCPClientServer.Calculator
