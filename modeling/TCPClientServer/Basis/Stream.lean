import TCPClientServer.Basis.Decimal

/-!
# Input streams

A `std::istream` over a text that is all there: the characters not yet read and the three state flags.
White space is skipped before each formatted extraction, an extraction that runs into the end of the text
sets `eofbit`, one that finds no valid value sets `failbit`.

* `getline n` : unformatted input of one line into a buffer of `n` characters;
* `extract scan` : formatted input of what `scan` finds at the front of the text;
* `scanInt32`, `scanHexUInt64`, `scanDouble` : the scans of `operator>>` for the types read here;
* `getline_line`, `getline_long`, `getline_last` : the ways a `getline` ends that has a line in front;
* `extract_word` : extraction from a good stream that has a value in front.
-/

namespace TCPClientServer.Basis

def newline : Byte := 10

structure IStream where
  unread : Bytes
  eof : Bool
  fail : Bool
  bad : Bool
deriving DecidableEq

namespace IStream

def ofText (t : Bytes) : IStream := ⟨t, false, false, false⟩

def good (s : IStream) : Bool := !s.eof && !s.fail && !s.bad

/-- `operator bool`, which is `!fail()`; `fail()` reads the bad bit too. -/
def ok (s : IStream) : Bool := !s.fail && !s.bad

@[simp] theorem unread_ofText (t : Bytes) : (ofText t).unread = t := rfl

@[simp] theorem good_mk (t : Bytes) (e f b : Bool) : (mk t e f b).good = (!e && !f && !b) := rfl

@[simp] theorem ok_mk (t : Bytes) (e f b : Bool) : (mk t e f b).ok = (!f && !b) := rfl

/-! ## Lines -/

/-- `getline(buffer, n)`: up to `n - 1` characters before the newline, which is taken and not stored. A
line that does not fit sets `failbit` and leaves its rest unread; the end of the text sets `eofbit`, and
`failbit` too when nothing was read. -/
def getline (n : Nat) (s : IStream) : Bytes × IStream :=
  if s.good then
    let stored := (s.unread.takeWhile (· != newline)).take (n - 1)
    match s.unread.drop stored.length with
    | [] => (stored, { s with unread := [], eof := true, fail := stored.isEmpty })
    | b :: t =>
      if b = newline then (stored, { s with unread := t })
      else (stored, { s with unread := b :: t, fail := true })
  else ([], { s with fail := true })

theorem takeWhile_line {l : Bytes} (hl : newline ∉ l) (t : Bytes) :
    (l ++ newline :: t).takeWhile (· != newline) = l := by
  rw [List.takeWhile_append_of_pos (fun b hb => by
    simpa using fun h : b = newline => hl (h ▸ hb))]
  simp

theorem takeWhile_last {l : Bytes} (hl : newline ∉ l) : l.takeWhile (· != newline) = l :=
  List.takeWhile_eq_self_iff.mpr fun b hb => by simpa using fun h : b = newline => hl (h ▸ hb)

/-- A line that fits is read whole, and no flag is set. -/
theorem getline_line {n : Nat} {l : Bytes} (hl : newline ∉ l) (hn : l.length < n) (t : Bytes) :
    getline n (ofText (l ++ newline :: t)) = (l, ofText t) := by
  have htake : l.take (n - 1) = l := List.take_of_length_le (by omega)
  simp [getline, takeWhile_line hl, htake, ofText]

/-- A line that does not fit fails the stream. -/
theorem getline_long {n : Nat} {l t : Bytes} (hl : newline ∉ l) (hn : 0 < n) (hlen : n ≤ l.length)
    (ht : ∀ b ∈ t.head?, b = newline) : getline n (ofText (l ++ t)) =
      (l.take (n - 1), { ofText (l.drop (n - 1) ++ t) with fail := true }) := by
  obtain ⟨b, u, hu⟩ : ∃ b u, l.drop (n - 1) = b :: u := by
    cases hd : l.drop (n - 1) with
    | nil => rw [List.drop_eq_nil_iff] at hd; omega
    | cons b u => exact ⟨b, u, rfl⟩
  have hb : b ≠ newline := by
    rintro rfl
    exact hl (List.mem_of_mem_drop (hu ▸ List.mem_cons_self))
  have hdrop : (l ++ t).drop (min (n - 1) l.length) = b :: (u ++ t) := by
    rw [Nat.min_eq_left (by omega), List.drop_append_of_le_length (by omega), hu, List.cons_append]
  have htake : (l ++ t).takeWhile (· != newline) = l := by
    cases t with
    | nil => rw [List.append_nil, takeWhile_last hl]
    | cons c t => rw [ht c rfl, takeWhile_line hl]
  simp [getline, htake, hdrop, hb, hu, ofText]

/-- A last line without a newline is read, and the stream is at its end but not failed. -/
theorem getline_last {n : Nat} {l : Bytes} (hl : newline ∉ l) (hne : l ≠ []) (hn : l.length < n) :
    getline n (ofText l) = (l, { ofText [] with eof := true }) := by
  have htake : l.take (n - 1) = l := List.take_of_length_le (by omega)
  simp [getline, takeWhile_last hl, htake, ofText, hne]

theorem getline_progress (n : Nat) (s : IStream) (hs : s.good = true) :
    (getline n s).2.good = false ∨ (getline n s).2.unread.length < s.unread.length := by
  rw [getline, if_pos hs]
  dsimp only
  split
  · left; simp
  · rename_i b t hdrop
    have hlen := congrArg List.length hdrop
    rw [List.length_drop, List.length_cons] at hlen
    split
    · right
      simp only
      omega
    · left; simp

/-! ## Formatted extraction -/

/-- What an extraction does first: skip white space on a good stream, fail when nothing is left. -/
def sentry (s : IStream) : Bool × IStream :=
  if s.good then
    match s.unread.dropWhile isSpace with
    | [] => (false, { s with unread := [], eof := true, fail := true })
    | b :: t => (true, { s with unread := b :: t })
  else (false, { s with fail := true })

/-- `is >> x` for a numeric `x`: the value found, if any. -/
def extract {α : Type} (scan : Bytes → Option α × Bytes) (s : IStream) : Option α × IStream :=
  let (good, s) := sentry s
  if good then
    let (x, t) := scan s.unread
    (x, { s with unread := t, eof := t.isEmpty, fail := x.isNone })
  else (none, s)

/-- `is >> c` for a `char`, which does not look past the character it takes. -/
def extractChar (s : IStream) : Option Byte × IStream :=
  let (good, s) := sentry s
  if good then (s.unread.head?, { s with unread := s.unread.tail }) else (none, s)

theorem sentry_spaces {ws : Bytes} (hws : ∀ b ∈ ws, isSpace b = true) {b : Byte} (hb : isSpace b = false)
    (t : Bytes) : sentry (ofText (ws ++ b :: t)) = (true, ofText (b :: t)) := by
  have hdrop : (ws ++ b :: t).dropWhile isSpace = b :: t := by
    rw [List.dropWhile_append_of_pos hws]
    simp [hb]
  simp [sentry, hdrop, ofText]

def rest (t : Bytes) (found : Bool) : IStream := ⟨t, t.isEmpty, !found, false⟩

/-- Extraction from a good stream is a scan of what stands behind the white space. -/
theorem extract_ofText {α : Type} {scan : Bytes → Option α × Bytes} (hnil : scan [] = (none, [])) (t : Bytes) :
    extract scan (ofText t) = ((scan (t.dropWhile isSpace)).1,
      rest (scan (t.dropWhile isSpace)).2 (scan (t.dropWhile isSpace)).1.isSome) := by
  cases hskip : t.dropWhile isSpace with
  | nil => simp [extract, sentry, ofText, hskip, hnil, rest]
  | cons b u =>
    cases hscan : scan (b :: u) with
    | mk x v => cases x <;> simp [extract, sentry, ofText, hskip, hscan, rest]

theorem extract_word {α : Type} {scan : Bytes → Option α × Bytes} {ws w t : Bytes} {x : α}
    (hws : ∀ b ∈ ws, isSpace b = true) (hw : ∀ b ∈ w.head?, isSpace b = false) (hne : w ≠ [])
    (hscan : scan (w ++ t) = (some x, t)) :
    extract scan (ofText (ws ++ (w ++ t))) = (some x, rest t true) := by
  cases w with
  | nil => exact absurd rfl hne
  | cons b w =>
    rw [List.cons_append] at hscan ⊢
    simp only [extract, sentry_spaces hws (hw b (by simp)), if_true, unread_ofText, hscan]
    rfl

theorem extractChar_word (ws : Bytes) (hws : ∀ b ∈ ws, isSpace b = true) {b : Byte} (hb : isSpace b = false)
    (t : Bytes) : extractChar (ofText (ws ++ b :: t)) = (some b, ofText t) := by
  simp only [extractChar, sentry_spaces hws hb, if_true, unread_ofText]
  rfl

end IStream

/-! ## The scans of the types read -/

abbrev Int32t := { i : Int // -2 ^ 31 ≤ i ∧ i < 2 ^ 31 }

def Int32t.literal (n : UInt8) : Int32t :=
  have hn := n.toNat_lt
  ⟨n.toNat, by omega, by omega⟩

def scanInteger (t : Bytes) : Option Int × Bytes :=
  let (negative, t) := scanSign t
  let (ds, t) := readDigits 10 t
  (if ds = [] then none else some (if negative then -(value 10 ds : Int) else value 10 ds), t)

/-- `is >> i` for an `int32_t`; a numeral out of range is no valid value. -/
def scanInt32 (t : Bytes) : Option Int32t × Bytes :=
  let (i, t) := scanInteger t
  (i.bind fun i => if h : -2 ^ 31 ≤ i ∧ i < 2 ^ 31 then some ⟨i, h⟩ else none, t)

def scanHexPrefix : Bytes → Bytes
  | b :: c :: t => if b = ch '0' ∧ (c = ch 'x' ∨ c = ch 'X') then t else b :: c :: t
  | t => t

/-- `is >> std::hex >> n` for a 64-bit unsigned `n`; a negative numeral wraps. -/
def scanHexUInt64 (t : Bytes) : Option Nat × Bytes :=
  let (negative, t) := scanSign t
  let (ds, t) := readDigits 16 (scanHexPrefix t)
  let n := value 16 ds
  (if ds = [] ∨ 2 ^ 64 ≤ n then none else some (if negative then (2 ^ 64 - n) % 2 ^ 64 else n), t)

/-- `is >> x` for a `double`; a numeral out of range is no valid value. -/
def scanDouble (t : Bytes) : Option Double × Bytes :=
  let (n, t) := scanReal t
  ((n.map fun n => Double.ofRat n.toRat).filter Double.isFinite, t)

theorem scanHexPrefix_of_digits {t : Bytes} (h : ∀ b ∈ t, digitIn 16 b ≠ none) : scanHexPrefix t = t := by
  unfold scanHexPrefix
  split
  · rename_i b c t
    refine if_neg fun hx => h c (by simp) ?_
    rcases hx.2 with rfl | rfl <;> decide
  · rfl

/-- **A hexadecimal numeral is scanned back**: no sign and no prefix is seen in it. -/
theorem scanHexUInt64_numeral {n : Nat} (hn : n < 2 ^ 64) : scanHexUInt64 (numeral 16 n) = (some n, []) := by
  have hsign : scanSign (numeral 16 n) = (false, numeral 16 n) := by
    have := scanSign_sign false (fun d => numeralDigits_lt (by decide : 1 < 16)) (numeralDigits_ne_nil 16 n) []
    simpa [numeral] using this
  have hprefix : scanHexPrefix (numeral 16 n) = numeral 16 n := by
    refine scanHexPrefix_of_digits fun b hb => ?_
    obtain ⟨d, hd, rfl⟩ := mem_numeral (by decide : 1 < 16) hb
    simp [digitIn_digitChar le_rfl hd]
  have hread := readDigits_numeral (by decide : 1 < 16) le_rfl n (Halts.nil 16)
  rw [List.append_nil] at hread
  have hsize : ¬ (numeralDigits 16 n = [] ∨ 2 ^ 64 ≤ n) :=
    not_or.mpr ⟨numeralDigits_ne_nil 16 n, by omega⟩
  simp only [scanHexUInt64, hsign, hprefix, hread, value_numeralDigits, if_neg hsize, Bool.false_eq_true,
    if_false]

/-- `os << i`. -/
def formatInt (i : Int) : Bytes := (if i < 0 then [ch '-'] else []) ++ numeral 10 i.natAbs

theorem formatInt_ne_nil (i : Int) : formatInt i ≠ [] := by
  simp [formatInt, numeral_ne_nil]

theorem isNumeralChar_formatInt {i : Int} {b : Byte} (hb : b ∈ formatInt i) : isNumeralChar b = true := by
  rcases List.mem_append.mp hb with hb | hb
  · split at hb
    · obtain rfl := List.mem_singleton.mp hb
      decide
    · cases hb
  · obtain ⟨d, hd, rfl⟩ := mem_numeral (by decide : 1 < 10) hb
    exact isNumeralChar_digitChar (by omega)

theorem scanInteger_formatInt (i : Int) {t : Bytes} (ht : Halts 10 t) :
    scanInteger (formatInt i ++ t) = (some i, t) := by
  have hsign : scanSign (formatInt i ++ t) = (decide (i < 0), numeral 10 i.natAbs ++ t) := by
    have := scanSign_sign (decide (i < 0))
      (fun d hd => (numeralDigits_lt (by decide : 1 < 10) hd).trans (by decide)) (numeralDigits_ne_nil 10 i.natAbs) t
    simpa [formatInt, numeral, decide_eq_true_eq] using this
  have hval : (if decide (i < 0) then -((i.natAbs : Nat) : Int) else (i.natAbs : Nat)) = i := by
    by_cases h : i < 0
    · rw [if_pos (by simpa using h)]; omega
    · rw [if_neg (by simpa using h)]; omega
  simp only [scanInteger, hsign, readDigits_numeral (by decide : 1 < 10) (by decide) _ ht, value_numeralDigits,
    hval, if_neg (numeralDigits_ne_nil 10 i.natAbs)]

/-- **An `int32_t` is scanned back** from its decimal numeral. -/
theorem scanInt32_formatInt (i : Int32t) {t : Bytes} (ht : Delimited t) :
    scanInt32 (formatInt i.1 ++ t) = (some i, t) := by
  simp only [scanInt32, scanInteger_formatInt i.1 (ht.halts 10), Option.bind_some, dif_pos i.2]

theorem length_formatInt (i : Int32t) : (formatInt i.1).length ≤ 11 := by
  have hlt : i.1.natAbs < 10 ^ 10 := by
    have := i.2
    omega
  have hnum := (length_numeral_le_iff (by decide : 1 < 10) (by decide : 0 < 10)).mpr hlt
  have hsign : (if i.1 < 0 then [ch '-'] else []).length ≤ 1 := by split <;> simp
  simp only [formatInt, List.length_append]
  omega

/-- **A formatted `double` is scanned back** when its numeral rounds to it. -/
theorem scanDouble_render {n : RealNumeral} (hn : n.WellFormed) {x : Double} (hx : Double.ofRat n.toRat = x)
    (hfin : x.isFinite = true) {t : Bytes} (ht : Delimited t) :
    scanDouble (n.render ++ t) = (some x, t) := by
  simp [scanDouble, RealNumeral.scanReal_render hn ht, hx, Option.filter, hfin]

end TCPClientServer.Basis
