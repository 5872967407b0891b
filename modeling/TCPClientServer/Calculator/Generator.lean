import TCPClientServer.Calculator.Interleaving
import TCPClientServer.Calculator.Reprinting

/-!
# The data generator

The generator counts the ids from one, draws the operation and the operands of each datum, and prints it. The engine
and the distributions are not modelled: a draw gives something, and another engine.

* `Dice`, `drawDatum`, `generated` : the loop of the generator;
* `ids_generated`, `named_generated` : what is known of the data, whatever is drawn;
* `reread_dataIn` : the data in the lines that it prints.
-/

namespace TCPClientServer.Calculator
open TCPClientServer.Basis TCPClientServer.Client

/-- `operation_dist` and `operand_dist`: what a draw gives, and the engine behind it. A draw ends with the addition of the
mean `0`, so that a zero is the positive one. -/
structure Dice (ρ : Type) where
  operation : ρ → Fin 5 × ρ
  operand : ρ → Double × ρ

def word : Bytes := chars "The padding..."

/-- `padding[i] = word[i % word.size()]`. -/
def wordPadding : Padding :=
  ⟨List.ofFn fun i : Fin paddingSize => word.get ⟨i % word.length, Nat.mod_lt _ (by decide)⟩, List.length_ofFn⟩

/-- The sizes for which the loop comes to its end: behind it, `request_id` is an `int` still. -/
abbrev DataSize := { n : Nat // n < 2 ^ 31 - 1 }

/-- The conversion of a draw to `operation_enum`. -/
def operationOfDraw (k : Fin 5) : Operation := .ofCode ⟨k, by omega⟩

section Generator
variable {ρ : Type} (dice : Dice ρ)

/-- The body of the loop. -/
def drawDatum (requestId : Int32t) (engine : ρ) : ClientData × ρ :=
  let (operation, engine) := dice.operation engine
  let (operand1, engine) := dice.operand engine
  let (operand2, engine) := dice.operand engine
  (⟨[], requestId, operand1, operationOfDraw operation, operand2, wordPadding⟩, engine)

/-- The loop, with so many passes left. -/
def drawLoop : (left requestId : Nat) → requestId + left ≤ 2 ^ 31 - 1 → ρ → List ClientData
  | 0, _, _, _ => []
  | left + 1, requestId, h, engine =>
    let (d, engine) := drawDatum dice ⟨requestId, by omega⟩ engine
    d :: drawLoop left (requestId + 1) (by omega) engine

def generated (n : DataSize) (engine : ρ) : List ClientData := drawLoop dice n.1 1 (by have := n.2; omega) engine

variable {dice}

instance (op : Operation) : Decidable op.Named := inferInstanceAs (Decidable (_ ∨ _))

theorem named_operationOfDraw (k : Fin 5) : (operationOfDraw k).Named := by
  revert k
  decide

theorem ids_drawLoop (left requestId : Nat) (h : requestId + left ≤ 2 ^ 31 - 1) (engine : ρ) :
    (drawLoop dice left requestId h engine).map (fun d => d.id.1) =
      (List.range' requestId left).map fun k : Nat => (k : Int) := by
  induction left generalizing requestId engine with
  | zero => rfl
  | succ left ih =>
    exact congrArg _ (ih (requestId + 1) (by omega) _)

/-- **The ids count the data.** -/
theorem ids_generated (n : DataSize) (engine : ρ) :
    (generated dice n engine).map (fun d => d.id.1) = (List.range' 1 n.1).map fun k : Nat => (k : Int) :=
  ids_drawLoop _ _ _ _

theorem named_drawLoop (left requestId : Nat) (h : requestId + left ≤ 2 ^ 31 - 1) (engine : ρ) :
    ∀ d ∈ drawLoop dice left requestId h engine, d.operation.Named := by
  induction left generalizing requestId engine with
  | zero => simp [drawLoop]
  | succ left ih => exact List.forall_mem_cons.mpr ⟨named_operationOfDraw _, ih _ _ _⟩

/-- **Every operation drawn has a name.** -/
theorem named_generated (n : DataSize) (engine : ρ) : ∀ d ∈ generated dice n engine, d.operation.Named :=
  named_drawLoop _ _ _ _

theorem ids_increase {ds : List ClientData} {n : DataSize} {engine : ρ} (h : ds.Sublist (generated dice n engine)) :
    (ds.map fun d => d.id.1).Pairwise (· < ·) := by
  refine List.Pairwise.sublist (h.map fun d => d.id.1) ?_
  rw [ids_generated, List.pairwise_map]
  exact (List.pairwise_lt_range' 1).imp Int.ofNat_lt.mpr

end Generator

/-! ## What is scraped of it -/

section Lines
variable (clientId : Bytes)

theorem dataIn_eq_scrapeLines (us : Nat → Locals) (ls : List Bytes)
    (h : ∀ l ∈ ls, Clean l ∧ l.length < maxInputLength) :
    ∃ vs, dataIn clientId us (ls ++ [[]]) = scrapeLines clientId vs ls := by
  induction ls generalizing us with
  | nil => exact ⟨us, rfl⟩
  | cons l ls ih =>
    obtain ⟨vs, hvs⟩ := ih (fun i => us (i + 1)) fun l hl => h l (List.mem_cons_of_mem _ hl)
    obtain ⟨hclean, hlen⟩ := h l List.mem_cons_self
    rw [List.cons_append, dataIn, hvs, lineBuffer_eq_self hclean hlen]
    by_cases hnil : l = []
    · refine ⟨vs, ?_⟩
      rw [scrapeLines, if_pos hnil, hnil]
      rfl
    · refine ⟨fun i => i.casesOn (us 0) vs, ?_⟩
      rw [scrapeLines, if_neg hnil, if_pos hlen, lineData_of_fits clientId _ hlen]
      rfl

/-- **The data in the lines of printed data** are these, reprinted. -/
theorem reread_dataIn (us : Nat → Locals) (ds : List ClientData) (hop : ∀ d ∈ ds, d.operation.Named)
    (hordinary : ∀ d ∈ ds, OrdinaryOperand d.operand1 ∧ OrdinaryOperand d.operand2) :
    List.Forall₂ (RereadAs clientId) (ds.filter (·.operation ≠ .nop))
      (dataIn clientId us (readable (generate ds))) := by
  rw [generate_eq_text, readable_text (clean_printed (read_of_ordinary hop hordinary))]
  obtain ⟨vs, hvs⟩ := dataIn_eq_scrapeLines clientId us _ (clean_printed (read_of_ordinary hop hordinary))
  rw [hvs]
  exact reread_scrapeLines clientId vs hop hordinary

end Lines

end TCPClientServer.Calculator
