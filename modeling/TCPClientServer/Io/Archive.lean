import TCPClientServer.Basis.Stream
import TCPClientServer.Io.Filter

/-!
# Text archives

A text archive is its signature followed by the words of the members, each with a blank in front. Of the
archives only this much is used: a primitive is written as a word and read off the front of the text, and
reading throws when the text there is no value of the type. What the words and the signature are is a parameter.

* `Primitive`, `Serial` : one primitive type, and any type that is written and read;
* `Serial.Reads` : a value is read back from its words;
* `TextArchive` : the signature, the primitives and the arrays, with what is relied on of them in
  `TextArchive.Lawful`;
* `TextArchive.codec` : the archive of a single value;
* `plainArchive` : an archive of this kind.
-/

namespace TCPClientServer.Io
open TCPClientServer.Basis

structure Primitive (α : Type) where
  word : α → Bytes
  load : Bytes → Except Exn (α × Bytes)

/-- A type with `serialize`: how it is written at the end of the text and read off its front. -/
structure Serial (α : Type) where
  save : α → Bytes
  load : Bytes → Except Exn (α × Bytes)

section Serials
variable {α : Type}

def Primitive.serial (p : Primitive α) : Serial α where
  save a := ch ' ' :: p.word a
  load := p.load

namespace Serial

/-- The value is read back from the words it was written as, whatever members follow. -/
def Reads (p : Serial α) (a : α) : Prop := ∀ rest, Delimited rest → p.load (p.save a ++ rest) = .ok (a, rest)

def Throws (p : Serial α) (a : α) : Prop :=
  ∀ rest, Delimited rest → ∃ e, p.load (p.save a ++ rest) = .error e

theorem Reads.before {β : Type} {p : Serial α} {a : α} (h : p.Reads a) (q : Primitive β) (b : β) (rest : Bytes) :
    p.load (p.save a ++ (q.serial.save b ++ rest)) = .ok (a, q.serial.save b ++ rest) :=
  h _ (Delimited.blank _)

end Serial

end Serials

/-! ## The archives used -/

/-- A text archive: what an output archive begins with and how an input archive takes it off, the primitives that the
data are made of, and the arrays of characters. An enumeration goes as an `int32_t`. -/
structure TextArchive where
  signature : Bytes
  loadSignature : Bytes → Except Exn Bytes
  string : Primitive Bytes
  int32 : Primitive Int32t
  double : Primitive Double
  ptime : Primitive Int
  charArray (n : Nat) : Serial { bs : Bytes // bs.length = n }

/-- What is relied on of a text archive: there is a signature, and every value is read back, except that a non-finite
`double` is written as a word that is none. The elements of an array are separated from what is in front of them. -/
structure TextArchive.Lawful (ar : TextArchive) : Prop where
  signature : ∀ rest, ar.loadSignature (ar.signature ++ rest) = .ok rest
  nonempty : ar.signature ≠ []
  string : ∀ s, ar.string.serial.Reads s
  int32 : ∀ i, ar.int32.serial.Reads i
  double : ∀ q, Double.Representable q → ar.double.serial.Reads (.finite q)
  nonfinite : ∀ x, x.isFinite = false → ar.double.serial.Throws x
  ptime : ∀ t, ar.ptime.serial.Reads t
  charArray : ∀ n bs, (ar.charArray n).Reads bs
  delimited : ∀ n bs rest, Delimited rest → Delimited ((ar.charArray n).save bs ++ rest)

theorem TextArchive.Lawful.reads_of_finite {ar : TextArchive} (har : ar.Lawful) {x : Double} (hx : x.Proper)
    (hfin : x.isFinite = true) : ar.double.serial.Reads x := by
  cases x with
  | finite q => exact har.double q hx
  | posInf => cases hfin
  | negInf => cases hfin
  | nan => cases hfin

theorem TextArchive.Lawful.reads_of_proper {ar : TextArchive} (har : ar.Lawful) {x : Double} (hx : x.Proper) :
    ar.double.serial.Reads x ∨ x.isFinite = false := by
  cases hfin : x.isFinite with
  | true => exact .inl (har.reads_of_finite hx hfin)
  | false => exact .inr rfl

def TextArchive.codec {α : Type} (ar : TextArchive) (p : Serial α) : Codec α where
  save a := ar.signature ++ p.save a
  load text := do
    let text ← ar.loadSignature text
    let (a, _) ← p.load text
    return a

namespace TextArchive
variable {α : Type} {ar : TextArchive} {p : Serial α} {a : α}

theorem codec_load (har : ar.Lawful) (h : p.Reads a) : (ar.codec p).load ((ar.codec p).save a) = .ok a := by
  have hload := h [] Delimited.nil
  rw [List.append_nil] at hload
  simp [codec, har.signature, hload]

theorem codec_load_throws (har : ar.Lawful) (h : p.Throws a) :
    ∃ e, (ar.codec p).load ((ar.codec p).save a) = .error e := by
  obtain ⟨e, he⟩ := h [] Delimited.nil
  rw [List.append_nil] at he
  exact ⟨e, by simp [codec, har.signature, he]⟩

theorem codec_save_ne_nil (har : ar.Lawful) : (ar.codec p).save a ≠ [] :=
  List.append_ne_nil_of_left_ne_nil har.nonempty _

end TextArchive

/-! ## A plain archive -/

/-- Formatted input from the archive's stream, which throws when the stream fails. -/
def loadScanned {α : Type} (scan : Bytes → Option α × Bytes) (text : Bytes) : Except Exn (α × Bytes) :=
  match IStream.extract scan (.ofText text) with
  | (some x, s) => .ok (x, s.unread)
  | (none, _) => .error .archive

theorem loadScanned_word {α : Type} {scan : Bytes → Option α × Bytes} {w rest : Bytes} {x : α}
    (hw : ∀ b ∈ w.head?, isSpace b = false) (hne : w ≠ []) (hscan : scan (w ++ rest) = (some x, rest)) :
    loadScanned scan (ch ' ' :: w ++ rest) = .ok (x, rest) := by
  have := IStream.extract_word isSpace_blank hw hne hscan
  rw [List.singleton_append] at this
  simp [loadScanned, this, IStream.rest]

theorem isSpace_head_formatInt (i : Int) : ∀ b ∈ (formatInt i).head?, isSpace b = false := fun _ hb =>
  isSpace_of_isNumeralChar (isNumeralChar_formatInt (List.mem_of_mem_head? hb))

def int32Primitive : Primitive Int32t where
  word i := formatInt i.1
  load := loadScanned scanInt32

theorem int32Primitive_reads (i : Int32t) : int32Primitive.serial.Reads i := fun _ hrest =>
  loadScanned_word (isSpace_head_formatInt i.1) (formatInt_ne_nil i.1) (scanInt32_formatInt i hrest)

def integerPrimitive : Primitive Int where
  word := formatInt
  load := loadScanned scanInteger

theorem integerPrimitive_reads (i : Int) : integerPrimitive.serial.Reads i := fun _ hrest =>
  loadScanned_word (isSpace_head_formatInt i) (formatInt_ne_nil i) (scanInteger_formatInt i (hrest.halts 10))

def charPrimitive : Primitive Byte where
  word b := formatInt b.toNat
  load t := do
    let (i, t) ← loadScanned scanInteger t
    return (UInt8.ofNat i.toNat, t)

theorem charPrimitive_reads (b : Byte) : charPrimitive.serial.Reads b := by
  intro rest hrest
  have hload : loadScanned scanInteger (charPrimitive.serial.save b ++ rest) = .ok ((b.toNat : Int), rest) :=
    integerPrimitive_reads b.toNat rest hrest
  simp [Primitive.serial, charPrimitive] at hload ⊢
  simp [hload]

def stringPrimitive : Primitive Bytes where
  word s := formatInt s.length ++ ch ' ' :: s
  load t := do
    let (n, t) ← loadScanned scanInteger t
    return (t.tail.take n.toNat, t.tail.drop n.toNat)

theorem stringPrimitive_reads (s : Bytes) : stringPrimitive.serial.Reads s := by
  intro rest _
  have hload := integerPrimitive_reads s.length (ch ' ' :: (s ++ rest)) (Delimited.blank _)
  simp only [Primitive.serial, integerPrimitive, stringPrimitive, List.cons_append, List.append_assoc] at hload ⊢
  simp [hload]

def scanRatio (t : Bytes) : Option Double × Bytes :=
  match scanInteger t with
  | (none, t) => (none, t)
  | (some i, t) =>
    match t with
    | [] => (some (.finite i), [])
    | b :: u =>
      if b = ch '/' then (some (.finite (i / value 10 (readDigits 10 u).1)), (readDigits 10 u).2)
      else (some (.finite i), b :: u)

/-- A rational goes as its integer or as a fraction, the other doubles as words. -/
def doublePrimitive : Primitive Double where
  word
    | .finite q => formatInt q.num ++ if q.den = 1 then [] else ch '/' :: numeral 10 q.den
    | .posInf => "inf".toList.map ch
    | .negInf => "-inf".toList.map ch
    | .nan => "nan".toList.map ch
  load := loadScanned scanRatio

theorem scanRatio_word (q : ℚ) {rest : Bytes} (hrest : Delimited rest) :
    scanRatio (doublePrimitive.word (.finite q) ++ rest) = (some (.finite q), rest) := by
  have hq := q.num_div_den
  by_cases hden : q.den = 1
  · have hscan := scanInteger_formatInt q.num (hrest.halts 10)
    rw [hden, Nat.cast_one, div_one] at hq
    simp only [scanRatio, doublePrimitive, hden, if_true, List.append_nil, hscan]
    cases rest with
    | nil => simp [hq]
    | cons b rest =>
      have hb : b ≠ ch '/' := by
        rintro rfl
        exact hrest.ne (by decide) rfl
      simp [hq, hb]
  · have hscan := scanInteger_formatInt q.num
      (Halts.cons (by decide : digitIn 10 (ch '/') = none) (numeral 10 q.den ++ rest))
    have hread := readDigits_numeral (by decide : 1 < 10) (by decide) q.den (hrest.halts 10)
    simp only [scanRatio, doublePrimitive, if_neg hden, List.append_assoc, List.cons_append, hscan, if_true, hread,
      value_numeralDigits, hq]

theorem doublePrimitive_reads (q : ℚ) : doublePrimitive.serial.Reads (.finite q) := by
  intro rest hrest
  refine loadScanned_word (fun b hb => ?_) ?_ (scanRatio_word q hrest)
  · refine isSpace_head_formatInt q.num b ?_
    rw [doublePrimitive] at hb
    simpa [List.head?_append_of_ne_nil _ (formatInt_ne_nil q.num)] using hb
  · simp [doublePrimitive, formatInt_ne_nil]

theorem doublePrimitive_throws {x : Double} (hx : x.isFinite = false) : doublePrimitive.serial.Throws x := by
  intro rest _
  cases x with
  | finite q => cases hx
  | posInf => exact ⟨.archive, rfl⟩
  | negInf => exact ⟨.archive, rfl⟩
  | nan => exact ⟨.archive, rfl⟩

section Arrays
variable {α : Type}

namespace Serial

def loadElements (p : Serial α) : Nat → Bytes → Except Exn (List α × Bytes)
  | 0, t => .ok ([], t)
  | n + 1, t => do
    let (a, t) ← p.load t
    let (as, t) ← loadElements p n t
    return (a :: as, t)

theorem length_loadElements {p : Serial α} {n : Nat} {t rest : Bytes} {as : List α}
    (h : loadElements p n t = .ok (as, rest)) : as.length = n := by
  induction n generalizing t rest as with
  | zero =>
    cases h
    rfl
  | succ n ih =>
    obtain ⟨⟨a, t'⟩, -, h⟩ := bind_eq_ok.mp h
    obtain ⟨⟨as', t''⟩, has, h⟩ := bind_eq_ok.mp h
    cases h
    rw [List.length_cons, ih has]

/-- An array goes element by element. -/
def array (p : Serial α) (n : Nat) : Serial { as : List α // as.length = n } where
  save as := as.1.flatMap p.save
  load t :=
    match h : loadElements p n t with
    | .ok (as, t) => .ok (⟨as, length_loadElements h⟩, t)
    | .error e => .error e

theorem delimited_flatMap (p : Primitive α) (as : List α) {rest : Bytes} (h : Delimited rest) :
    Delimited (as.flatMap p.serial.save ++ rest) := by
  cases as with
  | nil => exact h
  | cons a as =>
    rw [List.flatMap_cons, Primitive.serial, List.append_assoc, List.cons_append]
    exact Delimited.blank _

theorem loadElements_flatMap {p : Primitive α} (as : List α) (h : ∀ a ∈ as, p.serial.Reads a) (rest : Bytes)
    (hrest : Delimited rest) :
    loadElements p.serial as.length (as.flatMap p.serial.save ++ rest) = .ok (as, rest) := by
  induction as with
  | nil => rfl
  | cons a as ih =>
    have has := ih fun x hx => h x (List.mem_cons_of_mem a hx)
    rw [List.flatMap_cons, List.append_assoc, List.length_cons, loadElements,
      h a List.mem_cons_self _ (delimited_flatMap p as hrest), ok_bind]
    simp only [has, ok_bind, pure_eq_ok]

theorem array_reads {p : Primitive α} {n : Nat} (as : { as : List α // as.length = n })
    (h : ∀ a ∈ as.1, p.serial.Reads a) : (array p.serial n).Reads as := by
  intro rest hrest
  obtain ⟨as, rfl⟩ := as
  have hload := loadElements_flatMap as h rest hrest
  simp only [array]
  split
  · rename_i as' t hload'
    rw [hload] at hload'
    cases hload'
    rfl
  · rename_i e hload'
    rw [hload] at hload'
    cases hload'

end Serial

end Arrays

def plainSignature : Bytes := "22 serialization::archive 10".toList.map ch

def loadPlainSignature (text : Bytes) : Except Exn Bytes :=
  if text.take plainSignature.length = plainSignature then .ok (text.drop plainSignature.length)
  else .error .archive

theorem loadPlainSignature_append (rest : Bytes) : loadPlainSignature (plainSignature ++ rest) = .ok rest := by
  rw [loadPlainSignature, List.take_left, if_pos rfl, List.drop_left]

/-- Decimal integers throughout; a `double` that is no integer goes as a fraction. -/
def plainArchive : TextArchive where
  signature := plainSignature
  loadSignature := loadPlainSignature
  string := stringPrimitive
  int32 := int32Primitive
  double := doublePrimitive
  ptime := integerPrimitive
  charArray n := .array charPrimitive.serial n

theorem plainArchive_lawful : plainArchive.Lawful where
  signature := loadPlainSignature_append
  nonempty := by decide
  string := stringPrimitive_reads
  int32 := int32Primitive_reads
  double q _ := doublePrimitive_reads q
  nonfinite _ := doublePrimitive_throws
  ptime := integerPrimitive_reads
  charArray _ bs := Serial.array_reads bs fun b _ => charPrimitive_reads b
  delimited _ bs _ := Serial.delimited_flatMap charPrimitive bs.1

end TCPClientServer.Io
