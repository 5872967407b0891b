import TCPClientServer.Calculator.Data
import TCPClientServer.Client.Listen

/-!
# The strategies of the calculator

* `Operation.answer` : the switch of `ServerAction`, and `serverAction` around it;
* `Answers` : what a response has to do with its request, and `serverAction_answers` that a reply has it;
* `ClientActions` : the client's strategy, which keeps the padding of the last request and asserts that a
  response has the same.
-/

namespace TCPClientServer.Calculator
open TCPClientServer.Basis TCPClientServer.Io TCPClientServer.Server

namespace Operation

/-- The switch of `ServerAction::operator()`. -/
def answer (op : Operation) (x y : Double) : Except Exn Double :=
  match op with
  | add => .ok (x.add y)
  | subtract => .ok (x.sub y)
  | multiply => .ok (x.mul y)
  | divide => .ok (x.div y)
  | _ => .error .logicError

theorem answer_ok_iff (op : Operation) (x y : Double) : (∃ a, op.answer x y = .ok a) ↔ op.Valid := by
  cases op <;> simp [answer, Valid]

/-- A result is a value that a `double` has. -/
theorem answer_proper {op : Operation} {x y a : Double} (h : op.answer x y = .ok a) : a.Proper := by
  cases op with
  | add => cases h; exact Double.proper_add x y
  | subtract => cases h; exact Double.proper_sub x y
  | multiply => cases h; exact Double.proper_mul x y
  | divide => cases h; exact Double.proper_div x y
  | nop => cases h
  | unnamed c => cases h

/-- The result in exact arithmetic; there is none of a division by zero. -/
def exactResult (op : Operation) (p q : ℚ) : Option ℚ :=
  match op with
  | add => some (p + q)
  | subtract => some (p - q)
  | multiply => some (p * q)
  | divide => if q = 0 then none else some (p / q)
  | _ => none

theorem answer_eq_ofRat {op : Operation} {p q x : ℚ} {a : Double}
    (h : op.answer (.finite p) (.finite q) = .ok a) (hx : op.exactResult p q = some x) : a = .ofRat x := by
  cases op with
  | divide =>
    cases h
    by_cases hq : q = 0
    · simp [exactResult, hq] at hx
    · simp only [exactResult, if_neg hq, Option.some_inj] at hx
      simp [Double.div, hq, hx]
  | subtract => cases h; cases hx; rw [sub_eq_add_neg]; rfl
  | add => cases h; cases hx; rfl
  | multiply => cases h; cases hx; rfl
  | nop => cases h
  | unnamed c => cases h

/-- **A result is finite** when it exists in exact arithmetic and does not overflow. -/
theorem answer_isFinite_iff {op : Operation} {p q : ℚ} {a : Double}
    (h : op.answer (.finite p) (.finite q) = .ok a) :
    a.isFinite = true ↔ ∃ x, op.exactResult p q = some x ∧ |x| < Double.overflowThreshold := by
  cases op with
  | add => cases h; simpa [exactResult] using Double.isFinite_add p q
  | subtract => cases h; simpa [exactResult] using Double.isFinite_sub p q
  | multiply => cases h; simpa [exactResult] using Double.isFinite_mul p q
  | divide =>
    cases h
    rw [Double.isFinite_div]
    by_cases hq : q = 0
    · simp [exactResult, hq]
    · simp [exactResult, hq]
  | nop => cases h
  | unnamed c => cases h

end Operation

/-- `ServerAction::operator()`, at a reading of the clock. -/
def serverAction (now : Int) (d : ClientData) : Except Exn ServerData := do
  let answer ← d.operation.answer d.operand1 d.operand2
  return { timestamp := now, id := d.id, result := answer, padding := d.padding }

theorem serverAction_ok_iff (now : Int) (d : ClientData) :
    (∃ r, serverAction now d = .ok r) ↔ d.operation.Valid := by
  rw [← Operation.answer_ok_iff d.operation d.operand1 d.operand2]
  constructor
  · rintro ⟨r, hr⟩
    obtain ⟨a, ha, -⟩ := bind_eq_ok.mp hr
    exact ⟨a, ha⟩
  · rintro ⟨a, ha⟩
    simp [serverAction, ha]

/-- The response answers the request: its id and padding, and the result of its operation. -/
structure Answers (d : ClientData) (r : Response ServerData) : Prop where
  id : r.data.id = d.id
  padding : r.data.padding = d.padding
  result : d.operation.answer d.operand1 d.operand2 = .ok r.data.result

/-- **What the server action gives answers the request.** -/
theorem serverAction_answers {now : Int} {d : ClientData} {data : ServerData}
    (h : serverAction now d = .ok data) (status : TransmitionStatus) : Answers d ⟨status, data⟩ := by
  obtain ⟨a, ha, hdata⟩ := bind_eq_ok.mp h
  cases hdata
  exact ⟨rfl, rfl, ha⟩

/-! ## The strategy of the client -/

/-- `ClientActions`; its state is the static `padding`. -/
def ClientActions : Client.Strategy Padding ClientData ServerData where
  request _ d := d.padding
  response padding r := if r.data.padding = padding then some padding else none

theorem ClientActions_response_of_answers {d : ClientData} {r : Response ServerData} (h : Answers d r)
    (p : Padding) : ClientActions.response (ClientActions.request p d) r = some d.padding := by
  simp [ClientActions, h.padding]

end TCPClientServer.Calculator
