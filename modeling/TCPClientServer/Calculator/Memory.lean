import TCPClientServer.Calculator.Archive
import TCPClientServer.Calculator.Grammar
import TCPClientServer.Calculator.Threads

/-!
# What uninitialised memory does on the wire

The two threads of the client, with its connection and everything it does on the network. The server and the
network are a function of all that has happened before. Two runs of one schedule then differ in nothing but
what their calls find in uninitialised memory, and the wire shows it only when a request is sent: the padding of
every datum, all but the id of a datum whose line ends early, and the response when a header comes back that is
not valid. Until then two data may differ.

* `Taken` : what a datum has from memory;
* `Wired` : the client and the wire; `turn` : a step of one of its threads;
* `leftover` : what a step uses of uninitialised memory;
* `Similar` : two states that differ in memory not yet used; `similar_turn` : steps that use the same keep it;
* `same_frames` : the wires of two runs are the same when all steps do.
-/

namespace TCPClientServer.Calculator
open TCPClientServer.Basis TCPClientServer.Io TCPClientServer.Client TCPClientServer.Server

/-- What the client does on the network: it opens a connection, or a write puts bytes on one. -/
inductive WireEvent where
  | opening
  | put (bytes : Bytes)
deriving DecidableEq

/-- The server and the network, as functions of all that has happened on the wire: how the opening of a
connection ends, how much a write can put on it, and what comes back. -/
structure Peer where
  opens : List WireEvent → Except Exn Unit
  sink : List WireEvent → Sink
  source : List WireEvent → Source

/-- What a datum has from uninitialised memory: its padding, and its operator and second operand too when its line ends
early, and its first operand when the line ends behind the id. -/
inductive Taken where
  | padding (p : Padding)
  | rest (op : Byte) (operand1 : Option Double) (operand2 : Double) (p : Padding)
deriving DecidableEq

def Taken.ofLine (u : Locals) (line : Bytes) : Taken :=
  if EndsEarly line then .rest u.op (if EndsBehindId line then some u.operand1 else none) u.operand2 u.padding
  else .padding u.padding

/-- The two threads, the connection of the client, and what has happened on the wire; and the data parsed so far with
what each of them has from memory. -/
structure Wired where
  threads : Threads
  connection : Connection
  wire : List WireEvent
  parsed : List (ClientData × Taken)

def parsedBy : ScraperPc → ScraperPc → List (ClientData × Taken)
  | .parsing u line, .pushing d => [(d, .ofLine u line)]
  | _, _ => []

/-- The thread that is next, with the memory of a call of `get_datum` or of `send` that begins. -/
inductive Turn where
  | scraper (u : Locals)
  | client (fresh : Response ServerData)

def Turn.isClient : Turn → Bool
  | scraper _ => false
  | client _ => true

namespace Wired

def init (is : IStream) (padding : Padding) : Wired := ⟨.init is padding, .fresh, [], []⟩

section Steps
variable (f : Filter) (ar : TextArchive) (peer : Peer) (clientId : Bytes) (keepAlive : Bool)

def wrote (s : Wired) (d : ClientData) : List WireEvent :=
  s.wire ++ [.put (s.connection.write f (requestCodec ar) d (peer.sink s.wire)).put]

/-- What comes from outside in the next step of the client, the connection behind it and the wire. -/
def outside (s : Wired) (fresh : Response ServerData) : Move ServerData × Connection × List WireEvent :=
  match s.threads.client.pc with
  | .opening => (.opened (peer.opens s.wire), s.connection, s.wire ++ [.opening])
  | .sending d =>
    match Client.send f (requestCodec ar) (responseCodec ar) s.connection d (peer.sink s.wire) fresh
      (peer.source (s.wrote f ar peer d)) with
    | .ok sent => (.sent (.ok (sent.ec, sent.response)), sent.connection, s.wrote f ar peer d)
    | .error e => (.sent (.error e), s.connection, s.wrote f ar peer d)
  | _ => (.internal, s.connection, s.wire)

def turn (s : Wired) : Turn → Option Wired
  | .scraper u => (s.threads.step clientId keepAlive (.scrape u)).map fun threads =>
    { s with threads, parsed := s.parsed ++ parsedBy s.threads.scraper threads.scraper }
  | .client fresh =>
    let (m, connection, wire) := s.outside f ar peer fresh
    (s.threads.step clientId keepAlive (.client m)).map fun threads => { s with threads, connection, wire }

/-- What a step uses of uninitialised memory: whether there is an operator in it, what the datum that is sent has from
there, and the response. -/
structure Leftover where
  operator : Option Bool
  datum : Option Taken
  response : Option (Response ServerData)
deriving DecidableEq

/-- Eight bytes come back that are no header. -/
def InvalidHeader (s : Source) : Prop :=
  headerLength ≤ s.bytes.length ∧ handleDetermineDataSize (s.bytes.take headerLength) = none

instance (s : Source) : Decidable (InvalidHeader s) := inferInstanceAs (Decidable (_ ∧ _))

/-- The parser asks for the operator when the line ends early. A datum is sent with what it has from memory, and the
response is used when the request is written and the header that comes back is not valid. -/
def leftover (s : Wired) : Turn → Leftover
  | .scraper _ =>
    match s.threads.scraper with
    | .parsing u line => ⟨if EndsEarly line then some (parseOperation u.op).isOk else none, none, none⟩
    | _ => ⟨none, none, none⟩
  | .client fresh =>
    match s.threads.client.pc with
    | .sending d => ⟨none, s.parsed[s.threads.client.answered.length]?.map Prod.snd,
      if Written f (requestCodec ar) d (peer.sink s.wire) ∧ InvalidHeader (peer.source (s.wrote f ar peer d)) then
        some fresh else none⟩
    | _ => ⟨none, none, none⟩

end Steps

theorem turn_client (f : Filter) (ar : TextArchive) (peer : Peer) (clientId : Bytes) (keepAlive : Bool) (s : Wired)
    (fresh : Response ServerData) : s.turn f ar peer clientId keepAlive (.client fresh) =
      (s.threads.client.next ClientActions keepAlive s.threads.stream.good (s.outside f ar peer fresh).1).map
        fun client => { s with
          threads := { s.threads with client }, connection := (s.outside f ar peer fresh).2.1,
          wire := (s.outside f ar peer fresh).2.2 } := by
  change Option.map _ (Option.map _ _) = _
  rw [Option.map_map]
  rfl

/-! ## The data parsed -/

def unpushed : ScraperPc → List ClientData
  | .pushing d => [d]
  | _ => []

/-- The queue is used as it should be, and the data parsed are those pushed and the one that is about to be. -/
structure Tracked (s : Wired) : Prop where
  disciplined : s.threads.client.Disciplined
  parsed : s.parsed.map Prod.fst = s.threads.client.pushed ++ unpushed s.threads.scraper

theorem tracked_init (is : IStream) (padding : Padding) : (init is padding).Tracked :=
  ⟨Threads.disciplined_init is padding, rfl⟩

/-- The datum that is sent is the next one of those parsed. -/
theorem Tracked.sending {s : Wired} {d : ClientData} (h : s.Tracked) (hpc : s.threads.client.pc = .sending d) :
    ∃ k, s.parsed[s.threads.client.answered.length]? = some (d, k) := by
  obtain ⟨q, hq⟩ := List.head?_eq_some_iff.mp (h.disciplined.sending d hpc)
  have hparsed := congrArg (·[s.threads.client.answered.length]?) h.parsed
  simp only [h.disciplined.pushed_queue (by simp [hpc] : s.threads.client.pc ≠ .popping), hq, List.getElem?_map,
    List.append_assoc, List.cons_append] at hparsed
  rw [List.getElem?_append_right (by simp)] at hparsed
  simp only [List.length_map, Nat.sub_self, List.getElem?_cons_zero, Option.map_eq_some_iff] at hparsed
  obtain ⟨⟨_, k⟩, hk, rfl⟩ := hparsed
  exact ⟨k, hk⟩

section Step
variable {f : Filter} {ar : TextArchive} {peer : Peer} {clientId : Bytes} {keepAlive : Bool} {s s' t t' : Wired}

theorem unpushed_scrapes {s s' : Threads} {u : Locals} (h : Threads.Scrapes clientId s u s') :
    s.client.pushed ++ unpushed s.scraper ++ (parsedBy s.scraper s'.scraper).map Prod.fst =
      s'.client.pushed ++ unpushed s'.scraper := by
  cases h with
  | start hpc hok => simp [hpc, unpushed, parsedBy]
  | stop hpc hok => simp [hpc, unpushed, parsedBy]
  | line v hpc hgood => simp [hpc, unpushed, parsedBy]
  | read v buffer hpc hend => simp [hpc, unpushed, parsedBy]
  | corrupted v buffer hpc hbad => simp [hpc, unpushed, parsedBy]
  | skip v buffer hpc hbad hnone => simp [hpc, unpushed, parsedBy]
  | parsed v buffer hpc hbad hne d hd => simp [hpc, unpushed, parsedBy]
  | push d hpc => simp [hpc, unpushed, parsedBy, Thread.push]

theorem tracked_turn {e : Turn} (h : s.Tracked) (hstep : s.turn f ar peer clientId keepAlive e = some t) :
    t.Tracked := by
  cases e with
  | scraper u =>
    obtain ⟨r, hr, rfl⟩ := Option.map_eq_some_iff.mp hstep
    refine ⟨Threads.disciplined_step h.disciplined hr, ?_⟩
    rw [List.map_append, h.parsed]
    exact unpushed_scrapes (Threads.scrapes_iff.mp hr)
  | client fresh =>
    rw [turn_client] at hstep
    obtain ⟨client, hclient, rfl⟩ := Option.map_eq_some_iff.mp hstep
    have hmoves := Thread.moves_of_next hclient
    refine ⟨Thread.disciplined_moves h.disciplined hmoves, ?_⟩
    show s.parsed.map Prod.fst = client.pushed ++ _
    rw [Threads.pushed_of_moves hmoves, h.parsed]

/-! ## Two runs -/

/-- The scrapers are at the same place with the same line, whatever their memory holds. -/
inductive SameScraper : ScraperPc → ScraperPc → Prop where
  | loopTest : SameScraper .loopTest .loopTest
  | reading (u v : Locals) (buffer : Bytes) : SameScraper (.reading u buffer) (.reading v buffer)
  | parsing (u v : Locals) (buffer : Bytes) : SameScraper (.parsing u buffer) (.parsing v buffer)
  | pushing (d d' : ClientData) : SameScraper (.pushing d) (.pushing d')
  | stopped : SameScraper .stopped .stopped

/-- The clients are at the same place, and the strategies too unless each of them has just been told of a datum. -/
inductive SamePlace (c c' : Client.Thread Padding ClientData ServerData) : Prop where
  | elsewhere (hpc : c.pc = c'.pc) (hsending : ∀ d, c.pc ≠ .sending d) (hstrategy : c.strategy = c'.strategy)
  | sending (d d' : ClientData) (hpc : c.pc = .sending d) (hpc' : c'.pc = .sending d') (hd : c.strategy = d.padding)
    (hd' : c'.strategy = d'.padding)

/-- The clients differ at most in data that they have not sent. -/
structure SameClient (c c' : Client.Thread Padding ClientData ServerData) : Prop where
  answered : c.answered = c'.answered
  queue : c.queue.length = c'.queue.length
  place : SamePlace c c'

def SameIfTaken (x x' : ClientData × Taken) : Prop := x.2 = x'.2 → x.1 = x'.1

/-- The states differ at most in memory that has not been used. -/
structure Similar (s s' : Wired) : Prop where
  stream : s.threads.stream = s'.threads.stream
  scraper : SameScraper s.threads.scraper s'.threads.scraper
  client : SameClient s.threads.client s'.threads.client
  parsed : List.Forall₂ SameIfTaken s.parsed s'.parsed
  tracked : s.Tracked
  tracked' : s'.Tracked
  connection : s.connection = s'.connection
  wire : s.wire = s'.wire

theorem similar_init (is : IStream) (padding : Padding) : Similar (init is padding) (init is padding) where
  stream := rfl
  scraper := .loopTest
  client := ⟨rfl, rfl, .elsewhere rfl (by simp [init, Threads.init]) rfl⟩
  parsed := .nil
  tracked := tracked_init is padding
  tracked' := tracked_init is padding
  connection := rfl
  wire := rfl

/-- **What a parse has from memory**: of two parses of a line that take the same, the results are the same. -/
theorem parseDatum_congr (clientId : Bytes) {u v : Locals} {line : Bytes}
    (h : Taken.ofLine u line = Taken.ofLine v line) : parseDatum u clientId line = parseDatum v clientId line := by
  unfold Taken.ofLine at h
  by_cases hearly : EndsEarly line
  · rw [if_pos hearly, if_pos hearly] at h
    obtain ⟨hop, h1, h2, hp⟩ := Taken.rest.inj h
    obtain ⟨id, operand1, hconstant, hparse⟩ := parseDatum_early clientId hearly
    have hoperand1 : operand1 u.operand1 = operand1 v.operand1 := by
      by_cases hbehind : EndsBehindId line
      · rw [if_pos hbehind, if_pos hbehind] at h1
        rw [Option.some.inj h1]
      · exact hconstant hbehind _ _
    rw [hparse u, hparse v, hop, hoperand1, h2, hp]
  · rw [if_neg hearly, if_neg hearly] at h
    rw [parseDatum_regular clientId u hearly, parseDatum_regular clientId v hearly]
    cases lineItems line with
    | none => rfl
    | some items =>
      dsimp only
      rw [Items.datum, Items.datum, Taken.padding.inj h]

/-- Two parses of a line both give a datum or both do not, when memory holds an operator in both or in neither. -/
theorem parses_together (clientId : Bytes) {u v : Locals} {line : Bytes}
    (hop : EndsEarly line → (parseOperation u.op).isOk = (parseOperation v.op).isOk) :
    (∃ d d', parseDatum u clientId line = .ok d ∧ parseDatum v clientId line = .ok d') ∨
      parseDatum u clientId line = .error .badDataError ∧ parseDatum v clientId line = .error .badDataError := by
  by_cases hearly : EndsEarly line
  · obtain ⟨id, operand1, -, hparse⟩ := parseDatum_early clientId hearly
    have hop := hop hearly
    rw [hparse u, hparse v]
    cases hu : parseOperation u.op with
    | ok op =>
      cases hv : parseOperation v.op with
      | ok op' => exact .inl ⟨_, _, rfl, rfl⟩
      | error e => simp [hu, hv, Except.isOk, Except.toBool] at hop
    | error e =>
      cases hv : parseOperation v.op with
      | ok op' => simp [hu, hv, Except.isOk, Except.toBool] at hop
      | error e' =>
        rw [parseOperation_error hu, parseOperation_error hv]
        exact .inr ⟨rfl, rfl⟩
  · rw [parseDatum_regular clientId u hearly, parseDatum_regular clientId v hearly]
    cases lineItems line with
    | none => exact .inr ⟨rfl, rfl⟩
    | some items => exact .inl ⟨_, _, rfl, rfl⟩

/-- **A step that sends different paddings is seen**: of two parses of a line, the frames differ when they can
be decoded. -/
theorem frame_ne_of_padding {line : Bytes} {u v : Locals} {d d' : ClientData}
    (hparse : parseDatum u clientId line = .ok d) (hparse' : parseDatum v clientId line = .ok d')
    (haccepted : Accepted f (requestCodec ar) d) (haccepted' : Accepted f (requestCodec ar) d')
    (hdecodes : Decodes f (requestCodec ar) d) (hdecodes' : Decodes f (requestCodec ar) d')
    (hne : u.padding ≠ v.padding) : frame f (requestCodec ar) d ≠ frame f (requestCodec ar) d' := by
  intro hframe
  have hlen : (formatHeader (encode f (requestCodec ar) d).length).length =
      (formatHeader (encode f (requestCodec ar) d').length).length := by
    rw [length_formatHeader haccepted, length_formatHeader haccepted']
  have hencode := (List.append_inj hframe hlen).2
  rw [Decodes, hencode, hdecodes'] at hdecodes
  obtain ⟨_, _, _, _, _, -, -, -, -, -, hpadding⟩ := parseDatum_items hparse
  obtain ⟨_, _, _, _, _, -, -, -, -, -, hpadding'⟩ := parseDatum_items hparse'
  rw [← hpadding, ← hpadding', Except.ok.inj hdecodes] at hne
  exact hne rfl

/-- A datum pushed in both runs. -/
theorem SameClient.push {c c' : Client.Thread Padding ClientData ServerData} (h : SameClient c c') (d d' : ClientData) :
    SameClient (c.push d) (c'.push d') where
  answered := h.answered
  queue := by simp [Thread.push, h.queue]
  place := by
    cases h.place with
    | elsewhere hpc hsending hstrategy => exact .elsewhere hpc hsending hstrategy
    | sending e e' hpc hpc' he he' => exact .sending e e' hpc hpc' he he'

/-- The scraper's step from similar states, where memory holds an operator in both or in neither. -/
theorem similar_scrape {s s' r r' : Threads} {u v : Locals} (hstream : s.stream = s'.stream)
    (hscraper : SameScraper s.scraper s'.scraper) (hclient : SameClient s.client s'.client)
    (hop : ∀ w w' line, s.scraper = .parsing w line → s'.scraper = .parsing w' line → EndsEarly line →
      (parseOperation w.op).isOk = (parseOperation w'.op).isOk)
    (h : s.scrape clientId u = some r) (h' : s'.scrape clientId v = some r') :
    r.stream = r'.stream ∧ SameScraper r.scraper r'.scraper ∧ SameClient r.client r'.client ∧
      List.Forall₂ SameIfTaken (parsedBy s.scraper r.scraper) (parsedBy s'.scraper r'.scraper) := by
  obtain ⟨stream, scraper, client⟩ := s
  obtain ⟨_, scraper', client'⟩ := s'
  cases hstream
  cases hscraper with
  | loopTest =>
    cases hok : stream.ok with
    | true =>
      simp only [Threads.scrape, hok, if_true, Option.some.injEq] at h h'
      subst h h'
      exact ⟨rfl, .reading u v [], hclient, .nil⟩
    | false =>
      simp only [Threads.scrape, hok, Bool.false_eq_true, if_false, Option.some.injEq] at h h'
      subst h h'
      exact ⟨rfl, .stopped, hclient, .nil⟩
  | reading w w' buffer =>
    cases hloop : stream.ok && !stream.eof && buffer.isEmpty with
    | true =>
      simp only [Threads.scrape, hloop, if_true, Option.some.injEq] at h h'
      subst h h'
      exact ⟨rfl, .reading w w' _, hclient, .nil⟩
    | false =>
      simp only [Threads.scrape, hloop, Bool.false_eq_true, if_false, Option.some.injEq] at h h'
      subst h h'
      exact ⟨rfl, .parsing w w' buffer, hclient, .nil⟩
  | parsing w w' buffer =>
    simp only [Threads.scrape] at h h'
    split at h
    · rename_i hbad
      rw [if_pos hbad] at h'
      cases h
      cases h'
      exact ⟨rfl, .stopped, hclient, .nil⟩
    rename_i hbad
    rw [if_neg hbad] at h'
    split at h
    · rename_i hnil
      rw [if_pos hnil] at h'
      cases h
      cases h'
      exact ⟨rfl, .loopTest, hclient, .nil⟩
    rename_i hne
    rw [if_neg hne] at h'
    rcases parses_together clientId (hop w w' buffer rfl rfl) with ⟨d, d', hd, hd'⟩ | ⟨he, he'⟩
    · rw [hd] at h
      rw [hd'] at h'
      cases h
      cases h'
      refine ⟨rfl, .pushing d d', hclient, .cons (fun htaken => ?_) .nil⟩
      rw [parseDatum_congr clientId htaken, hd'] at hd
      exact (Except.ok.inj hd).symm
    · rw [he] at h
      rw [he'] at h'
      cases h
      cases h'
      exact ⟨rfl, .loopTest, hclient, .nil⟩
  | pushing d d' =>
    cases h
    cases h'
    exact ⟨rfl, .loopTest, hclient.push d d', .nil⟩
  | stopped => cases h

theorem SameClient.onSent {c c' : Client.Thread Padding ClientData ServerData} (h : SameClient c c')
    (hstrategy : c.strategy = c'.strategy) (d : ClientData) (result : Except Exn (ErrorCode × Response ServerData)) :
    SameClient (c.onSent ClientActions d result) (c'.onSent ClientActions d result) := by
  cases result with
  | error e => exact ⟨h.answered, h.queue, .elsewhere rfl (by simp [Thread.onSent]) hstrategy⟩
  | ok sent =>
    obtain ⟨ec, r⟩ := sent
    simp only [Thread.onSent]
    cases react ec r.transmissionStatus with
    | throws fault => exact ⟨h.answered, h.queue, .elsewhere rfl (by simp) hstrategy⟩
    | reconnect => exact ⟨h.answered, h.queue, .elsewhere rfl (by simp) hstrategy⟩
    | respond =>
      rw [← hstrategy]
      cases ClientActions.response c.strategy r with
      | none => exact ⟨h.answered, h.queue, .elsewhere rfl (by simp) rfl⟩
      | some strategy => exact ⟨by rw [h.answered], h.queue, .elsewhere rfl (by simp) rfl⟩

theorem SameClient.goes {c c' : Client.Thread Padding ClientData ServerData} (h : SameClient c c')
    (hstrategy : c.strategy = c'.strategy) {p : Pc ClientData ServerData} (hp : ∀ d, p ≠ .sending d) :
    SameClient { c with pc := p } { c' with pc := p } := ⟨h.answered, h.queue, .elsewhere rfl hp hstrategy⟩

theorem SameClient.next_internal {c c' r r' : Client.Thread Padding ClientData ServerData} {good : Bool}
    (h : SameClient c c') (hpc : c.pc = c'.pc) (hstrategy : c.strategy = c'.strategy)
    (hnext : c.next ClientActions keepAlive good .internal = some r)
    (hnext' : c'.next ClientActions keepAlive good .internal = some r') : SameClient r r' := by
  have hempty : c'.queue.isEmpty = c.queue.isEmpty := by
    rw [Bool.eq_iff_iff, List.isEmpty_iff_length_eq_zero, List.isEmpty_iff_length_eq_zero, h.queue]
  have hafter : ∀ (connectionOk inputOk : Bool) (d : ClientData),
      (afterTest connectionOk inputOk : Pc ClientData ServerData) ≠ .sending d := fun connectionOk inputOk =>
    (Thread.afterTest_ne connectionOk inputOk).2.1
  cases Thread.moves_of_next hnext with
  | empty hplace hq =>
    simp only [Thread.next, ← hpc, hplace, hempty, hq, List.isEmpty_nil, if_true, Option.some.injEq] at hnext'
    subst hnext'
    exact h.goes hstrategy (by simp)
  | nonempty hplace hq =>
    simp only [Thread.next, ← hpc, hplace, hempty, List.isEmpty_iff, hq, if_false, Option.some.injEq] at hnext'
    subst hnext'
    exact h.goes hstrategy (by simp)
  | front hplace d q hq =>
    obtain ⟨d', q', hq'⟩ : ∃ d' q', c'.queue = d' :: q' := List.exists_cons_of_length_pos (by simp [← h.queue, hq])
    simp only [Thread.next, ← hpc, hplace, hq', Option.some.injEq] at hnext'
    subst hnext'
    exact ⟨h.answered, h.queue.trans (congrArg List.length hq'), .sending d d' rfl rfl rfl rfl⟩
  | pop hplace =>
    simp only [Thread.next, ← hpc, hplace, Option.some.injEq] at hnext'
    subst hnext'
    exact ⟨h.answered, by simp [h.queue], .elsewhere rfl (by simp) hstrategy⟩
  | keepAlive connectionOk hplace =>
    simp only [Thread.next, ← hpc, hplace, Option.some.injEq] at hnext'
    subst hnext'
    refine h.goes hstrategy fun d => ?_
    cases keepAlive with
    | true => exact hafter connectionOk true d
    | false => simp
  | testedEmpty connectionOk hplace hq =>
    simp only [Thread.next, ← hpc, hplace, hempty, hq, List.isEmpty_nil, if_true, Option.some.injEq] at hnext'
    subst hnext'
    exact h.goes hstrategy (by simp)
  | testedNonempty connectionOk hplace hq =>
    simp only [Thread.next, ← hpc, hplace, hempty, List.isEmpty_iff, hq, if_false, Option.some.injEq] at hnext'
    subst hnext'
    exact h.goes hstrategy (hafter connectionOk true)
  | testedScraper connectionOk hplace =>
    simp only [Thread.next, ← hpc, hplace, Option.some.injEq] at hnext'
    subst hnext'
    exact h.goes hstrategy (hafter connectionOk good)

/-- A step of both clients with the same from outside, where they do not send different data. -/
theorem SameClient.next {c c' r r' : Client.Thread Padding ClientData ServerData} {good : Bool} {m : Move ServerData}
    (h : SameClient c c') (hsent : ∀ d d', c.pc = .sending d → c'.pc = .sending d' → d = d')
    (hnext : c.next ClientActions keepAlive good m = some r)
    (hnext' : c'.next ClientActions keepAlive good m = some r') : SameClient r r' := by
  cases h.place with
  | sending d d' hpc hpc' hd hd' =>
    obtain rfl := hsent d d' hpc hpc'
    cases Thread.moves_of_next hnext with
    | sent e hplace result =>
      simp only [Thread.next, hpc', Option.some.injEq] at hnext'
      subst hnext'
      cases hpc.symm.trans hplace
      exact h.onSent (hd.trans hd'.symm) d result
    | _ => simp_all
  | elsewhere hpc hsending hstrategy =>
    cases Thread.moves_of_next hnext with
    | opened hplace =>
      simp only [Thread.next, ← hpc, hplace, Option.some.injEq] at hnext'
      subst hnext'
      exact h.goes hstrategy (by simp)
    | notOpened hplace e =>
      simp only [Thread.next, ← hpc, hplace, Option.some.injEq] at hnext'
      subst hnext'
      exact h.goes hstrategy (by simp)
    | sent d hplace result => exact absurd hplace (hsending d)
    | _ => exact h.next_internal hpc hstrategy hnext hnext'

theorem Similar.sent_eq {fresh fresh' : Response ServerData} (h : Similar s s')
    (hleft : s.leftover f ar peer (.client fresh) = s'.leftover f ar peer (.client fresh')) {d d' : ClientData}
    (hpc : s.threads.client.pc = .sending d) (hpc' : s'.threads.client.pc = .sending d') : d = d' := by
  obtain ⟨k, hk⟩ := h.tracked.sending hpc
  obtain ⟨k', hk'⟩ := h.tracked'.sending hpc'
  simp only [leftover, hpc, hpc', hk, hk', Option.map_some] at hleft
  obtain ⟨-, htaken, -⟩ := Leftover.mk.inj hleft
  rw [← h.client.answered] at hk'
  obtain ⟨hn, hget⟩ := List.getElem?_eq_some_iff.mp hk
  obtain ⟨hn', hget'⟩ := List.getElem?_eq_some_iff.mp hk'
  have hsame := h.parsed.get hn hn'
  rw [List.get_eq_getElem, List.get_eq_getElem, hget, hget'] at hsame
  exact hsame (Option.some.inj htaken)

variable (keepAlive) in
/-- What comes from outside is the same in similar states, but for a response that is not looked at. -/
theorem similar_outside {fresh fresh' : Response ServerData} (h : Similar s s')
    (hleft : s.leftover f ar peer (.client fresh) = s'.leftover f ar peer (.client fresh')) (good : Bool) :
    s.threads.client.next ClientActions keepAlive good (s.outside f ar peer fresh).1 =
      s.threads.client.next ClientActions keepAlive good (s'.outside f ar peer fresh').1 ∧
    (s.outside f ar peer fresh).2 = (s'.outside f ar peer fresh').2 := by
  cases h.client.place with
  | elsewhere hpc hsending hstrategy =>
    cases hplace : s.threads.client.pc with
    | sending d => exact absurd hplace (hsending d)
    | _ => simp [outside, ← hpc, hplace, h.connection, h.wire]
  | sending d d' hpc hpc' hd hd' =>
    obtain rfl := h.sent_eq hleft hpc hpc'
    have hwrote : s.wrote f ar peer d = s'.wrote f ar peer d := by rw [wrote, wrote, h.connection, h.wire]
    simp only [leftover, hpc, hpc'] at hleft
    simp only [outside, hpc, hpc', h.connection, h.wire, hwrote]
    rcases send_fresh f (requestCodec ar) (responseCodec ar) s'.connection d (peer.sink s'.wire)
      (peer.source (s'.wrote f ar peer d)) fresh fresh' with
      hsame | ⟨conn', ec, sent, received, hsend, hsend', hheader⟩
    · rw [hsame]
      exact ⟨rfl, rfl⟩
    · rw [hsend, hsend']
      refine ⟨?_, rfl⟩
      cases ec with
      | some e => simp only [Thread.next, hpc, Thread.onSent_fault ClientActions s.threads.client d e fresh fresh']
      | none =>
        -- the response is what memory held, and the same in both
        have hwritten : Written f (requestCodec ar) d (peer.sink s'.wire) := by
          by_contra hnot
          obtain ⟨_, e, hfails, he⟩ := send_not_written (responseCodec ar) s'.connection fresh
            (peer.source (s'.wrote f ar peer d)) hnot
          rw [hsend] at hfails
          cases hfails
          cases he
        have hused : Written f (requestCodec ar) d (peer.sink s'.wire) ∧
            InvalidHeader (peer.source (s'.wrote f ar peer d)) := ⟨hwritten, hheader rfl⟩
        rw [h.wire, hwrote, if_pos hused, if_pos hused] at hleft
        obtain ⟨-, -, hfresh⟩ := Leftover.mk.inj hleft
        rw [Option.some.inj hfresh]

/-- **Steps of one thread that use the same of memory** lead from similar states to similar ones. -/
theorem similar_turn {e e' : Turn} (h : Similar s s') (hthread : e.isClient = e'.isClient)
    (hleft : s.leftover f ar peer e = s'.leftover f ar peer e') (hstep : s.turn f ar peer clientId keepAlive e = some t)
    (hstep' : s'.turn f ar peer clientId keepAlive e' = some t') : Similar t t' := by
  have htracked := tracked_turn h.tracked hstep
  have htracked' := tracked_turn h.tracked' hstep'
  cases e with
  | scraper u =>
    cases e' with
    | client fresh => cases hthread
    | scraper v =>
      obtain ⟨r, hr, rfl⟩ := Option.map_eq_some_iff.mp hstep
      obtain ⟨r', hr', rfl⟩ := Option.map_eq_some_iff.mp hstep'
      obtain ⟨hstream, hscraper, hclient, hparsed⟩ := similar_scrape h.stream h.scraper h.client
        (fun w w' line hs hs' hearly => by simpa [leftover, hs, hs', hearly] using hleft) hr hr'
      exact ⟨hstream, hscraper, hclient, List.rel_append h.parsed hparsed, htracked, htracked', h.connection, h.wire⟩
  | client fresh =>
    cases e' with
    | scraper v => cases hthread
    | client fresh' =>
      rw [turn_client] at hstep hstep'
      obtain ⟨client, hclient, rfl⟩ := Option.map_eq_some_iff.mp hstep
      obtain ⟨client', hclient', rfl⟩ := Option.map_eq_some_iff.mp hstep'
      obtain ⟨hmove, hrest⟩ := similar_outside keepAlive h hleft s.threads.stream.good
      rw [hmove] at hclient
      rw [← h.stream] at hclient'
      exact ⟨h.stream, h.scraper, h.client.next (fun d d' => h.sent_eq hleft) hclient hclient', h.parsed, htracked,
        htracked', congrArg Prod.fst hrest, congrArg Prod.snd hrest⟩

end Step

/-- **The wires of two runs are the same**, when they differ in memory only and every two of their steps use the same
of it. -/
theorem same_frames (f : Filter) (ar : TextArchive) (peer : Peer) (clientId : Bytes) (keepAlive : Bool) (is : IStream)
    (padding : Padding) {es es' : List Turn} {s s' : Wired} (hschedule : es.map Turn.isClient = es'.map Turn.isClient)
    (hleft : Always₂ (StepOf (turn f ar peer clientId keepAlive))
      (fun t t' e e' => t.leftover f ar peer e = t'.leftover f ar peer e') (init is padding) (init is padding) es es')
    (hrun : Runs (StepOf (turn f ar peer clientId keepAlive)) (init is padding) es s)
    (hrun' : Runs (StepOf (turn f ar peer clientId keepAlive)) (init is padding) es' s') : s.wire = s'.wire := by
  have hlen : es.length = es'.length := by simpa using congrArg List.length hschedule
  have hsimilar : Similar s s' := hrun.invariant₂ hrun' hlen ((always₂_of_map_eq hschedule).and hleft)
    (similar_init is padding) fun t t' e e' u u' h hcond hstep hstep' => similar_turn h hcond.1 hcond.2 hstep hstep'
  exact hsimilar.wire

/-! ## A sum -/

/-- A server that takes every request and closes the connection. -/
def silentPeer : Peer := ⟨fun _ => .ok (), fun _ => ⟨none, .eof⟩, fun _ => ⟨[], .eof⟩⟩

def sumInit : Wired := init (.ofText (sumLine ++ [newline])) (.replicate 0)

def sumTurn : Wired → Turn → Option Wired := turn defaultFilter plainArchive silentPeer [] false

def sumTurns (u : Locals) : List Turn :=
  List.replicate 5 (.scraper u) ++ List.replicate 4 (.client blankResponse)

/-- Two runs that find different operators in memory. -/
theorem same_frames_sum : ∃ s s', Runs (StepOf sumTurn) sumInit (sumTurns .zero) s ∧
    Runs (StepOf sumTurn) sumInit (sumTurns .plus) s' ∧ s.wire ≠ [.opening] ∧ s.wire = s'.wire := by
  have hplay : (play sumTurn sumInit (sumTurns .zero)).any (fun s => decide (s.wire ≠ [.opening])) = true := by
    decide +kernel
  have hplay' : (play sumTurn sumInit (sumTurns .plus)).any (fun _ => true) = true := by decide +kernel
  obtain ⟨s, hs, hwire⟩ := (Option.any_eq_true _ _).mp hplay
  obtain ⟨s', hs', -⟩ := (Option.any_eq_true _ _).mp hplay'
  have hschedule : (sumTurns .zero).map Turn.isClient = (sumTurns .plus).map Turn.isClient := rfl
  have hleft : Always₂ (StepOf sumTurn)
      (fun t t' e e' => t.leftover defaultFilter plainArchive silentPeer e =
        t'.leftover defaultFilter plainArchive silentPeer e')
      sumInit sumInit (sumTurns .zero) (sumTurns .plus) := always₂_of_alongside₂ sumTurn (by decide +kernel)
  exact ⟨s, s', runs_of_play hs, runs_of_play hs', of_decide_eq_true hwire,
    same_frames defaultFilter plainArchive silentPeer [] false _ _ hschedule hleft (runs_of_play hs)
      (runs_of_play hs')⟩

def ones : Locals := { Locals.zero with padding := .replicate 1 }

theorem frames_differ : ¬ ∀ (f : Filter) (ar : TextArchive) (peer : Peer) (clientId : Bytes) (keepAlive : Bool)
    (text : Bytes) (padding : Padding) (es es' : List Turn) (s s' : Wired), ar.Lawful →
      (∀ line ∈ text.splitOn newline, line ≠ [] → (lineItems line).isSome = true) →
      es.map Turn.isClient = es'.map Turn.isClient →
      Runs (StepOf (turn f ar peer clientId keepAlive)) (init (.ofText text) padding) es s →
      Runs (StepOf (turn f ar peer clientId keepAlive)) (init (.ofText text) padding) es' s' → s.wire = s'.wire := by
  intro h
  have hplay : (play sumTurn sumInit (sumTurns .zero)).any (fun s =>
      (play sumTurn sumInit (sumTurns ones)).any fun s' => decide (s.wire ≠ s'.wire)) = true := by decide +kernel
  obtain ⟨s, hs, hany⟩ := (Option.any_eq_true _ _).mp hplay
  obtain ⟨s', hs', hne⟩ := (Option.any_eq_true _ _).mp hany
  have hlines : ∀ line ∈ (sumLine ++ [newline]).splitOn newline, line ≠ [] → (lineItems line).isSome = true := by
    decide +kernel
  have hschedule : (sumTurns .zero).map Turn.isClient = (sumTurns ones).map Turn.isClient := rfl
  exact of_decide_eq_true hne (h defaultFilter plainArchive silentPeer [] false (sumLine ++ [newline]) (.replicate 0)
    _ _ s s' plainArchive_lawful hlines hschedule (runs_of_play hs) (runs_of_play hs'))

end Wired

end TCPClientServer.Calculator
