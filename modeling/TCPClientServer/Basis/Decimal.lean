import TCPClientServer.Basis.Numeral
import TCPClientServer.Basis.Binary64
import Mathlib.Algebra.Order.Ring.Rat
import Mathlib.Data.List.DropRight
import Mathlib.Tactic.Positivity
import Mathlib.Tactic.Ring

/-!
# Decimal numerals of reals

The text of a real number: what a formatted output stream writes for a `double` at a given precision,
and what a formatted input stream takes off the front of a text for one.

* `RealNumeral` : sign, whole digits, fraction digits and exponent, with the value `toRat`;
* `scanReal` : the numeral at the front of a text, `none` when the text taken is none;
* `scanReal_render` : a numeral is scanned back whole when white space or the end follows it;
* `formatReal p q` : the numeral of `q` at precision `p`, trailing zeros dropped, in the shorter of the
  two notations; `length_render_formatReal` bounds it for the range of a `double`.
-/

namespace TCPClientServer.Basis

/-- A numeral as it is read: the exponent comes with its sign. -/
structure RealNumeral where
  negative : Bool
  whole : List Nat
  fraction : List Nat
  exponent : Option (Bool × List Nat)
deriving DecidableEq

namespace RealNumeral

def exponentValue : Option (Bool × List Nat) → ℤ
  | none => 0
  | some (negative, ds) => if negative then -(value 10 ds : ℤ) else value 10 ds

def magnitude (n : RealNumeral) : ℚ :=
  value 10 (n.whole ++ n.fraction) * 10 ^ (exponentValue n.exponent - n.fraction.length)

def toRat (n : RealNumeral) : ℚ := if n.negative then -n.magnitude else n.magnitude

def renderFraction (ds : List Nat) : Bytes := if ds = [] then [] else ch '.' :: ds.map digitChar

def renderExponent : Option (Bool × List Nat) → Bytes
  | none => []
  | some (negative, ds) => ch 'e' :: (if negative then ch '-' else ch '+') :: ds.map digitChar

def render (n : RealNumeral) : Bytes :=
  (if n.negative then [ch '-'] else []) ++ n.whole.map digitChar ++ renderFraction n.fraction ++
    renderExponent n.exponent

/-- Decimal digits throughout, with a whole part, and with digits after an exponent's sign. -/
structure WellFormed (n : RealNumeral) : Prop where
  whole_lt : ∀ d ∈ n.whole, d < 10
  whole_ne : n.whole ≠ []
  fraction_lt : ∀ d ∈ n.fraction, d < 10
  exponent_lt : ∀ e ∈ n.exponent, ∀ d ∈ e.2, d < 10
  exponent_ne : ∀ e ∈ n.exponent, e.2 ≠ []

end RealNumeral

/-! ## Scanning -/

/-- An optional sign; whether it is a minus. -/
def scanSign : Bytes → Bool × Bytes
  | [] => (false, [])
  | b :: t => if b = ch '-' then (true, t) else if b = ch '+' then (false, t) else (false, b :: t)

def scanFraction : Bytes → List Nat × Bytes
  | [] => ([], [])
  | b :: t => if b = ch '.' then readDigits 10 t else ([], b :: t)

/-- The numeral at the front of a text. The characters of the longest possible numeral are taken, and it
is a numeral only if all of them belong to it: an `e` must be followed by digits. -/
def scanReal (t : Bytes) : Option RealNumeral × Bytes :=
  let (negative, t) := scanSign t
  let (whole, t) := readDigits 10 t
  let (fraction, t) := scanFraction t
  if whole = [] ∧ fraction = [] then (none, t)
  else
    match t with
    | [] => (some ⟨negative, whole, fraction, none⟩, [])
    | b :: u =>
      if b = ch 'e' ∨ b = ch 'E' then
        let (expNegative, u) := scanSign u
        let (ds, u) := readDigits 10 u
        if ds = [] then (none, u) else (some ⟨negative, whole, fraction, some (expNegative, ds)⟩, u)
      else (some ⟨negative, whole, fraction, none⟩, b :: u)

/-- The text is at its end or goes on with white space. -/
def Delimited (t : Bytes) : Prop := ∀ b ∈ t.head?, isSpace b = true

theorem Delimited.nil : Delimited [] := by simp [Delimited]

theorem Delimited.blank (t : Bytes) : Delimited (ch ' ' :: t) := by
  intro b hb
  obtain rfl : ch ' ' = b := by simpa using hb
  decide

theorem Delimited.halts {t : Bytes} (h : Delimited t) (base : Nat) : Halts base t := by
  intro b hb
  cases hd : digitIn base b with
  | none => rfl
  | some d =>
    have hs := h b hb
    rw [isSpace_of_digitIn hd] at hs
    cases hs

theorem Delimited.ne {t : Bytes} (h : Delimited t) {c : Byte} (hc : isSpace c = false) : c ∉ t.head? := by
  intro hmem
  rw [h c hmem] at hc
  cases hc

theorem digitIn_eq_none_of_sign {b : Byte} (h : b = ch '-' ∨ b = ch '+' ∨ b = ch '.' ∨ b = ch 'e') :
    digitIn 10 b = none := by
  rcases h with rfl | rfl | rfl | rfl <;> decide

theorem digitChar_ne {base d : Nat} (hb : base ≤ 16) (hd : d < base) {c : Byte} (hc : digitIn base c = none) :
    digitChar d ≠ c := by
  rintro rfl
  rw [digitIn_digitChar hb hd] at hc
  cases hc

theorem scanSign_digit {d : Nat} (hd : d < 16) (t : Bytes) :
    scanSign (digitChar d :: t) = (false, digitChar d :: t) := by
  have hminus : digitChar d ≠ ch '-' := digitChar_ne le_rfl hd (by decide)
  have hplus : digitChar d ≠ ch '+' := digitChar_ne le_rfl hd (by decide)
  simp only [scanSign, if_neg hminus, if_neg hplus]

theorem scanSign_sign (negative : Bool) {ds : List Nat} (hds : ∀ d ∈ ds, d < 16) (hne : ds ≠ []) (t : Bytes) :
    scanSign ((if negative then [ch '-'] else []) ++ ds.map digitChar ++ t) =
      (negative, ds.map digitChar ++ t) := by
  cases negative with
  | true => simp [scanSign]
  | false =>
    cases ds with
    | nil => exact absurd rfl hne
    | cons d ds => exact scanSign_digit (hds d List.mem_cons_self) _

namespace RealNumeral

variable {n : RealNumeral} {t : Bytes}

theorem halts_renderExponent (e : Option (Bool × List Nat)) (ht : Delimited t) :
    Halts 10 (renderExponent e ++ t) := by
  cases e with
  | none => exact ht.halts 10
  | some e => exact Halts.cons (digitIn_eq_none_of_sign (.inr (.inr (.inr rfl)))) _

theorem scanFraction_render {ds : List Nat} (hds : ∀ d ∈ ds, d < 10) (e : Option (Bool × List Nat))
    (ht : Delimited t) :
    scanFraction (renderFraction ds ++ (renderExponent e ++ t)) = (ds, renderExponent e ++ t) := by
  unfold renderFraction
  split
  · subst ds
    cases e with
    | none =>
      cases t with
      | nil => rfl
      | cons b t =>
        have hb : b ≠ ch '.' := by
          rintro rfl
          exact ht.ne (by decide) rfl
        simp [renderExponent, scanFraction, hb]
    | some e =>
      simp only [renderExponent, List.nil_append, List.cons_append, scanFraction]
      rw [if_neg (by decide)]
  · rw [List.cons_append, scanFraction, if_pos rfl]
    exact readDigits_map_digitChar (by omega) (halts_renderExponent e ht) hds

theorem halts_renderFraction (ds : List Nat) (e : Option (Bool × List Nat)) (ht : Delimited t) :
    Halts 10 (renderFraction ds ++ (renderExponent e ++ t)) := by
  unfold renderFraction
  split
  · exact halts_renderExponent e ht
  · exact Halts.cons (digitIn_eq_none_of_sign (.inr (.inr (.inl rfl)))) _

/-- **A numeral is scanned back**, and nothing of the text behind it is. -/
theorem scanReal_render (hn : n.WellFormed) (ht : Delimited t) : scanReal (n.render ++ t) = (some n, t) := by
  obtain ⟨negative, whole, fraction, exponent⟩ := n
  have hsplit : render ⟨negative, whole, fraction, exponent⟩ ++ t =
      (if negative then [ch '-'] else []) ++ whole.map digitChar ++
        (renderFraction fraction ++ (renderExponent exponent ++ t)) := by
    simp [render, List.append_assoc]
  have hread := readDigits_map_digitChar (by omega) (halts_renderFraction fraction exponent ht) hn.whole_lt
  have hwhole : ∀ d ∈ whole, d < 16 := fun d hd => (hn.whole_lt d hd).trans (by decide)
  unfold scanReal
  rw [hsplit, scanSign_sign negative hwhole hn.whole_ne]
  simp only [hread, scanFraction_render hn.fraction_lt exponent ht]
  rw [if_neg (fun h => hn.whole_ne h.1)]
  cases exponent with
  | none =>
    cases t with
    | nil => rfl
    | cons b t =>
      have hb : ¬ (b = ch 'e' ∨ b = ch 'E') := by
        rintro (rfl | rfl) <;> exact ht.ne (by decide) rfl
      simp [renderExponent, hb]
  | some e =>
    obtain ⟨expNegative, ds⟩ := e
    have hds := hn.exponent_lt _ rfl
    have hne := hn.exponent_ne _ rfl
    have hsign : scanSign ((if expNegative then ch '-' else ch '+') :: (ds.map digitChar ++ t)) =
        (expNegative, ds.map digitChar ++ t) := by
      cases expNegative <;> rfl
    simp only [renderExponent, List.cons_append, true_or, if_true, hsign,
      readDigits_map_digitChar (by omega) (ht.halts 10) hds, if_neg hne]

end RealNumeral

/-! ## Formatting -/

/-- The `p` leading digits of a positive `q` as one number, rounded, and the exponent of the first. -/
def leadingDigits (p : Nat) (q : ℚ) : Nat × ℤ :=
  let e := Int.log 10 q
  let m := (Double.roundEven (q * 10 ^ ((p : ℤ) - 1 - e))).toNat
  if m < 10 ^ p then (m, e) else (10 ^ (p - 1), e + 1)

def stripZeros (ds : List Nat) : List Nat := ds.rdropWhile (· == 0)

/-- An exponent is written with two digits at least. -/
def exponentDigits (e : ℤ) : List Nat :=
  if e.natAbs < 10 then 0 :: numeralDigits 10 e.natAbs else numeralDigits 10 e.natAbs

/-- `os << std::setprecision(p) << q` in the default notation: scientific when the exponent of the first
digit is below `-4` or not below the precision, positional otherwise. -/
def formatReal (p : Nat) (q : ℚ) : RealNumeral :=
  if q = 0 then ⟨false, [0], [], none⟩
  else
    let (m, e) := leadingDigits p |q|
    let ds := numeralDigits 10 m
    if e < -4 ∨ (p : ℤ) ≤ e then
      ⟨decide (q < 0), ds.take 1, stripZeros (ds.drop 1), some (decide (e < 0), exponentDigits e)⟩
    else if e < 0 then
      ⟨decide (q < 0), [0], List.replicate (-e - 1).toNat 0 ++ stripZeros ds, none⟩
    else ⟨decide (q < 0), ds.take (e.toNat + 1), stripZeros (ds.drop (e.toNat + 1)), none⟩

example : (formatReal 15 (-5 / 2)).render = [ch '-', ch '2', ch '.', ch '5'] := by
  decide +kernel

theorem mem_stripZeros {ds : List Nat} {d : Nat} (h : d ∈ stripZeros ds) : d ∈ ds :=
  (List.rdropWhile_prefix _ ds).subset h

theorem length_stripZeros_le (ds : List Nat) : (stripZeros ds).length ≤ ds.length :=
  (List.rdropWhile_prefix _ ds).length_le

theorem exponentDigits_ne_nil (e : ℤ) : exponentDigits e ≠ [] := by
  unfold exponentDigits
  split
  · simp
  · exact numeralDigits_ne_nil _ _

theorem exponentDigits_lt {e : ℤ} {d : Nat} (h : d ∈ exponentDigits e) : d < 10 := by
  unfold exponentDigits at h
  split at h
  · rcases List.mem_cons.mp h with rfl | h
    · omega
    · exact numeralDigits_lt (by omega) h
  · exact numeralDigits_lt (by omega) h

theorem take_ne_nil {ds : List Nat} (h : ds ≠ []) (k : Nat) : ds.take (k + 1) ≠ [] := by
  cases ds with
  | nil => exact absurd rfl h
  | cons d ds => simp

theorem formatReal_wellFormed (p : Nat) (q : ℚ) : (formatReal p q).WellFormed := by
  have hlt : ∀ m, ∀ d ∈ numeralDigits 10 m, d < 10 := fun m d => numeralDigits_lt (by omega)
  have hne : ∀ m, numeralDigits 10 m ≠ [] := numeralDigits_ne_nil 10
  unfold formatReal
  split
  · exact ⟨by simp, by simp, by simp, by simp, by simp⟩
  · dsimp only
    split
    · refine ⟨fun d h => hlt _ d (List.mem_of_mem_take h), take_ne_nil (hne _) 0,
        fun d h => hlt _ d (List.mem_of_mem_drop (mem_stripZeros h)), ?_, ?_⟩
      · rintro e ⟨⟩ d h
        exact exponentDigits_lt h
      · rintro e ⟨⟩
        exact exponentDigits_ne_nil _
    · split
      · refine ⟨by simp, by simp, fun d h => ?_, by simp, by simp⟩
        rcases List.mem_append.mp h with h | h
        · rw [List.eq_of_mem_replicate h]; omega
        · exact hlt _ d (mem_stripZeros h)
      · exact ⟨fun d h => hlt _ d (List.mem_of_mem_take h), take_ne_nil (hne _) _,
          fun d h => hlt _ d (List.mem_of_mem_drop (mem_stripZeros h)), by simp, by simp⟩

/-! ### The length of a formatted number -/

theorem leadingDigits_lt {p : Nat} (hp : 0 < p) (q : ℚ) : (leadingDigits p q).1 < 10 ^ p := by
  unfold leadingDigits
  dsimp only
  split
  · assumption
  · exact Nat.pow_lt_pow_right (by omega) (by omega)

theorem leadingDigits_exponent (p : Nat) (q : ℚ) :
    Int.log 10 q ≤ (leadingDigits p q).2 ∧ (leadingDigits p q).2 ≤ Int.log 10 q + 1 := by
  unfold leadingDigits
  dsimp only
  split <;> constructor <;> omega

theorem Double.InRange.log {q : ℚ} (h : Double.InRange q) : -324 ≤ Int.log 10 |q| ∧ Int.log 10 |q| < 309 := by
  have hpos : 0 < |q| := lt_of_lt_of_le (by positivity) h.1
  constructor
  · refine (Int.zpow_le_iff_le_log (by norm_num) hpos).mp (le_trans ?_ h.1)
    decide +kernel
  · refine (Int.lt_zpow_iff_log_lt (by norm_num) hpos).mp (lt_trans h.2 ?_)
    decide +kernel

theorem RealNumeral.length_render_le (n : RealNumeral) :
    n.render.length ≤ 2 + n.whole.length + n.fraction.length + (renderExponent n.exponent).length := by
  have hsign : (if n.negative then [ch '-'] else []).length ≤ 1 := by cases n.negative <;> simp
  have hfraction : (renderFraction n.fraction).length ≤ n.fraction.length + 1 := by
    unfold renderFraction
    split <;> simp
  simp only [render, List.length_append, List.length_map]
  omega

theorem length_exponentDigits_le {e : ℤ} (he : e.natAbs < 1000) : (exponentDigits e).length ≤ 3 := by
  have hlen : ∀ k, 0 < k → ((numeralDigits 10 e.natAbs).length ≤ k ↔ e.natAbs < 10 ^ k) := fun k hk => by
    simpa [numeral] using length_numeral_le_iff (n := e.natAbs) (by decide : 1 < 10) hk
  unfold exponentDigits
  split
  · rename_i h
    have := (hlen 1 (by omega)).mpr (by omega)
    simp only [List.length_cons]
    omega
  · exact (hlen 3 (by omega)).mpr (by omega)

/-- A finite `double` takes at most 22 characters at precision 15. -/
theorem length_render_formatReal {q : ℚ} (hq : q = 0 ∨ Double.InRange q) :
    (formatReal 15 q).render.length ≤ 22 := by
  rcases hq with rfl | hq
  · decide
  have hq0 : q ≠ 0 := by
    rintro rfl
    exact absurd hq.1 (by simp)
  have hlog := hq.log
  have hexp := leadingDigits_exponent 15 |q|
  have hdigits : (numeralDigits 10 (leadingDigits 15 |q|).1).length ≤ 15 := by
    simpa [numeral] using (length_numeral_le_iff (by decide : 1 < 10) (by decide)).mpr
      (leadingDigits_lt (by decide : 0 < 15) |q|)
  refine (RealNumeral.length_render_le _).trans ?_
  unfold formatReal
  rw [if_neg hq0]
  dsimp only
  split
  · have hfrac := length_stripZeros_le ((numeralDigits 10 (leadingDigits 15 |q|).1).drop 1)
    have hes : (exponentDigits (leadingDigits 15 |q|).2).length ≤ 3 := length_exponentDigits_le (by omega)
    simp only [RealNumeral.renderExponent, List.length_cons, List.length_map, List.length_take,
      List.length_drop] at hfrac ⊢
    omega
  · split
    · have hfrac := length_stripZeros_le (numeralDigits 10 (leadingDigits 15 |q|).1)
      simp only [RealNumeral.renderExponent, List.length_append, List.length_replicate, List.length_nil,
        List.length_singleton]
      omega
    · have hfrac := length_stripZeros_le
        ((numeralDigits 10 (leadingDigits 15 |q|).1).drop ((leadingDigits 15 |q|).2.toNat + 1))
      simp only [RealNumeral.renderExponent, List.length_nil, List.length_take, List.length_drop] at hfrac ⊢
      omega

theorem RealNumeral.WellFormed.isNumeralChar_render {n : RealNumeral} (hn : n.WellFormed) {b : Byte}
    (hb : b ∈ n.render) : isNumeralChar b = true := by
  have hdigits : ∀ ds : List Nat, (∀ d ∈ ds, d < 10) → b ∈ ds.map digitChar → isNumeralChar b = true := by
    intro ds hds hmem
    obtain ⟨d, hd, rfl⟩ := List.mem_map.mp hmem
    exact isNumeralChar_digitChar (by have := hds d hd; omega)
  simp only [render, List.mem_append] at hb
  rcases hb with ((hb | hb) | hb) | hb
  · split at hb
    · obtain rfl := List.mem_singleton.mp hb
      decide
    · cases hb
  · exact hdigits _ hn.whole_lt hb
  · unfold renderFraction at hb
    split at hb
    · cases hb
    · rcases List.mem_cons.mp hb with rfl | hb
      · decide
      · exact hdigits _ hn.fraction_lt hb
  · cases he : n.exponent with
    | none => rw [he] at hb; cases hb
    | some e =>
      rw [he, renderExponent] at hb
      rcases List.mem_cons.mp hb with rfl | hb
      · decide
      rcases List.mem_cons.mp hb with rfl | hb
      · cases e.1 <;> decide
      · exact hdigits _ (hn.exponent_lt e he) hb

end TCPClientServer.Basis
