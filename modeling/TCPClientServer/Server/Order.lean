import TCPClientServer.Server.Containment

/-!
# Sessions answer in order

The client of a session sends frames, one request after another. However its bytes are split, the session
reads exactly these requests and replies to each before it reads the next one.

* `Replied` : a response is what the server makes of a request;
* `Session.Serves` : how far the session has come with the bytes it has received; `serves_complete` : every
  handler keeps it; `complete_error` : an error ends the session;
* `Orderly`, `received` : what the clients do, and the bytes of one of them;
* `sessions_answer_in_order` : what holds in every run.
-/

namespace TCPClientServer.Server
open TCPClientServer.Basis TCPClientServer.Io

section Order
variable {D A : Type} (f : Filter) (cd : Codec D) (cr : Codec (Response A)) (strategy : Int → D → Except Exn A)

/-- The response carries the result of the strategy on the request, and was not refused by the write. -/
structure Replied (d : D) (r : Response A) : Prop where
  status : r.transmissionStatus = .ok
  data : ∃ now, strategy now d = .ok r.data
  accepted : Accepted f cr r

abbrev Replies (ds : List D) (rs : List (Response A)) : Prop := List.Forall₂ (Replied f cr strategy) ds rs

namespace Session

/-- Where a session stands whose client sends the requests `ds`: it has read the first of them and nothing
else, and replied to all it has read. Inside a request the header has been read; a write is that of the last
reply; a session that has ended may owe the reply to its last request. -/
structure Serves (ds : List D) (bytes : Bytes) (s : Session D A) : Prop where
  requests : s.requests <+: ds
  arrived : s.requests.flatMap (frame f cd) <+: bytes
  between : s.pending = .accept ∨ s.pending = .handshake ∨ s.pending = .readHeader ∨ (∃ put, s.pending = .write put) →
    bytes = s.requests.flatMap (frame f cd) ∧ Replies f cr strategy s.requests s.replies
  inside : ∀ b, s.pending = .readBody b → ∃ d, s.requests ++ [d] <+: ds ∧
    bytes = s.requests.flatMap (frame f cd) ++ formatHeader (encode f cd d).length ∧
    b.size = (encode f cd d).length ∧ s.connection.inboundData.length = (encode f cd d).length ∧
    Replies f cr strategy s.requests s.replies
  writing : ∀ put, s.pending = .write put → ∃ rs r, s.replies = rs ++ [r] ∧ put = frame f cr r
  ended : s.pending = .idle → Replies f cr strategy s.requests s.replies ∨
    ∃ done d, s.requests = done ++ [d] ∧ Replies f cr strategy done s.replies

variable {f cd cr strategy} {s t : Session D A} {c : Completion} {ds : List D} {bytes : Bytes} {d : D}

theorem Serves.of_between (hreq : s.requests <+: ds) (hbytes : bytes = s.requests.flatMap (frame f cd))
    (hreplies : Replies f cr strategy s.requests s.replies) (hp : ∀ b, s.pending ≠ .readBody b)
    (hwriting : ∀ put, s.pending = .write put → ∃ rs r, s.replies = rs ++ [r] ∧ put = frame f cr r) :
    Serves f cd cr strategy ds bytes s where
  requests := hreq
  arrived := by rw [hbytes]
  between _ := ⟨hbytes, hreplies⟩
  inside b hb := absurd hb (hp b)
  writing := hwriting
  ended _ := .inl hreplies

/-- A session that has ended stays what it is, whatever else arrives for it. -/
theorem Serves.of_ended (hreq : s.requests <+: ds) (harrived : s.requests.flatMap (frame f cd) <+: bytes)
    (hreplies : Replies f cr strategy s.requests s.replies ∨
      ∃ done d, s.requests = done ++ [d] ∧ Replies f cr strategy done s.replies) (hp : s.pending = .idle) :
    Serves f cd cr strategy ds bytes s where
  requests := hreq
  arrived := harrived
  between h := by simp [hp] at h
  inside b hb := by simp [hp] at hb
  writing put hput := by simp [hp] at hput
  ended _ := hreplies

theorem Serves.replied (h : Serves f cd cr strategy ds bytes s) (hidle : s.pending ≠ .idle) :
    Replies f cr strategy s.requests s.replies := by
  cases hp : s.pending with
  | accept => exact (h.between (.inl hp)).2
  | handshake => exact (h.between (.inr (.inl hp))).2
  | readHeader => exact (h.between (.inr (.inr (.inl hp)))).2
  | write put => exact (h.between (.inr (.inr (.inr ⟨put, hp⟩)))).2
  | readBody b =>
    obtain ⟨d, -, -, -, -, hreplies⟩ := h.inside b hp
    exact hreplies
  | idle => exact absurd hp hidle

/-- A session that serves owes at most the reply to its last request. -/
theorem Serves.replies (h : Serves f cd cr strategy ds bytes s) : Replies f cr strategy s.requests s.replies ∨
    ∃ done d, s.requests = done ++ [d] ∧ Replies f cr strategy done s.replies := by
  by_cases hidle : s.pending = .idle
  · exact h.ended hidle
  · exact .inl (h.replied hidle)

/-! ## Errors -/

variable (f cd cr strategy) in
/-- **An error ends the session**: no handler is left, and nothing more is written. -/
theorem complete_error {e : Fault} (hec : c.ec = some e) (hp : s.pending ≠ .accept) (hp' : s.pending ≠ .handshake) :
    ∃ connection, complete f cd cr strategy s c = .ok { s with connection, pending := .idle } := by
  rw [complete]
  cases hpending : s.pending with
  | accept => exact absurd hpending hp
  | handshake => exact absurd hpending hp'
  | idle => exact ⟨s.connection, by simp [← hpending]⟩
  | write put => exact ⟨s.connection, by simp [onWritten, hec]⟩
  | readHeader =>
    simp only [Connection.handleReadHeader, hec, ok_bind, onReceived]
    exact ⟨_, rfl⟩
  | readBody b =>
    simp only [Connection.handleReadData, hec, ok_bind, onReceived]
    exact ⟨_, rfl⟩

theorem serves_error {e : Fault} (h : Serves f cd cr strategy ds bytes s) (hec : c.ec = some e)
    (hp : s.pending ≠ .accept) (hp' : s.pending ≠ .handshake) (ht : complete f cd cr strategy s c = .ok t)
    (bytes' : Bytes) : Serves f cd cr strategy ds (bytes ++ bytes') t := by
  obtain ⟨connection, heq⟩ := complete_error f cd cr strategy hec hp hp'
  rw [heq] at ht
  cases ht
  exact .of_ended h.requests (h.arrived.trans (List.prefix_append _ _)) h.replies rfl

/-! ## Frames -/

theorem eq_of_prefix_append {a x y : Bytes} (h : a <+: x ++ y) (hlen : a.length = x.length) : a = x := by
  have hx : a <+: x := List.prefix_of_prefix_length_le h (List.prefix_append x y) hlen.le
  exact hx.eq_of_length hlen

/-- The header that a session receives is that of its next request. -/
theorem Serves.header (hds : ∀ d ∈ ds, Accepted f cd d) (h : Serves f cd cr strategy ds bytes s)
    (hp : s.pending = .readHeader) (hlen : c.received.length = headerLength)
    (hstart : bytes ++ c.received <+: ds.flatMap (frame f cd)) :
    ∃ d, s.requests ++ [d] <+: ds ∧ c.received = formatHeader (encode f cd d).length := by
  obtain ⟨hbytes, -⟩ := h.between (.inr (.inr (.inl hp)))
  obtain ⟨rest, rfl⟩ := h.requests
  rw [hbytes, List.flatMap_append, List.prefix_append_right_inj] at hstart
  cases rest with
  | nil =>
    rw [List.flatMap_nil, List.prefix_nil] at hstart
    simp [hstart, headerLength] at hlen
  | cons d rest =>
    rw [List.flatMap_cons, frame, List.append_assoc] at hstart
    refine ⟨d, by simp, eq_of_prefix_append hstart ?_⟩
    rw [hlen, length_formatHeader (hds d (by simp))]

theorem Serves.body {b : Connection.BodyRead} (h : Serves f cd cr strategy ds bytes s) (hp : s.pending = .readBody b)
    (hlen : c.received.length = b.size) (hstart : bytes ++ c.received <+: ds.flatMap (frame f cd)) :
    ∃ d, s.requests ++ [d] <+: ds ∧ bytes ++ c.received = (s.requests ++ [d]).flatMap (frame f cd) ∧
      c.received = encode f cd d ∧ s.connection.inboundData.length = (encode f cd d).length ∧
      Replies f cr strategy s.requests s.replies := by
  obtain ⟨d, ⟨rest, rfl⟩, hbytes, hsize, hdata, hreplies⟩ := h.inside b hp
  have hreceived : c.received = encode f cd d := by
    rw [hbytes] at hstart
    simp only [List.flatMap_append, List.append_assoc, List.flatMap_cons, List.flatMap_nil, List.nil_append,
      List.prefix_append_right_inj, frame] at hstart
    exact eq_of_prefix_append hstart (hlen.trans hsize)
  exact ⟨d, List.prefix_append _ _, by simp [hbytes, hreceived, frame], hreceived, hdata, hreplies⟩

theorem serves_header (hds : ∀ d ∈ ds, Accepted f cd d) (h : Serves f cd cr strategy ds bytes s)
    (hp : s.pending = .readHeader) (hec : c.ec = none) (hlen : c.received.length = headerLength)
    (hstart : bytes ++ c.received <+: ds.flatMap (frame f cd)) (ht : complete f cd cr strategy s c = .ok t) :
    Serves f cd cr strategy ds (bytes ++ c.received) t := by
  obtain ⟨hbytes, hreplies⟩ := h.between (.inr (.inr (.inl hp)))
  obtain ⟨d, hnext, hreceived⟩ := h.header hds hp hlen hstart
  obtain ⟨connection, hcomplete, hdata⟩ := complete_header cr strategy c.now hp
    (hds d (hnext.subset (by simp)))
  rw [← hreceived, ← hec] at hcomplete
  cases hcomplete.symm.trans ht
  constructor
  · exact h.requests
  · exact h.arrived.trans (List.prefix_append _ _)
  · simp
  · rintro b hb
    cases hb
    exact ⟨d, hnext, by rw [hbytes, hreceived], rfl, hdata, hreplies⟩
  · simp
  · simp

theorem Serves.reply {b : Connection.BodyRead} (hds : ∀ d ∈ ds, Sound f cd d)
    (h : Serves f cd cr strategy ds bytes s) (hp : s.pending = .readBody b) (hec : c.ec = none)
    (hlen : c.received.length = b.size) (hstart : bytes ++ c.received <+: ds.flatMap (frame f cd))
    (ht : complete f cd cr strategy s c = .ok t) : ∃ d data, s.requests ++ [d] <+: ds ∧
      bytes ++ c.received = (s.requests ++ [d]).flatMap (frame f cd) ∧ strategy c.now d = .ok data ∧
      Replies f cr strategy s.requests s.replies ∧ t = doReply f cr { s with
        connection := { s.connection with inboundData := c.received }, cdata := d,
        requests := s.requests ++ [d], response := ⟨.ok, data⟩ } := by
  obtain ⟨d, hnext, hwhole, hreceived, hdata, hreplies⟩ := h.body hp hlen hstart
  -- the handler has returned, so the body was decoded
  obtain ⟨d', hd'⟩ : ∃ d', decode f cd (encode f cd d) = .ok d' := by
    rw [complete, hp, hreceived] at ht
    simp only [fill_full hdata.symm, hec, Connection.handleReadData] at ht
    obtain ⟨⟨ec, length, d'⟩, hdecode, -⟩ := bind_eq_ok.mp ht
    obtain ⟨d', hd', -⟩ := bind_eq_ok.mp hdecode
    exact ⟨d', hd'⟩
  obtain rfl := hds d (hnext.subset (by simp)) d' hd'
  have hcomplete := complete_body cr strategy c.now hp hdata hd'
  rw [← hreceived, ← hec] at hcomplete
  obtain ⟨data, hstrategy, ht⟩ := bind_eq_ok.mp (hcomplete.symm.trans ht)
  cases ht
  exact ⟨d', data, hnext, hwhole, hstrategy, hreplies, rfl⟩

theorem serves_body {b : Connection.BodyRead} (hds : ∀ d ∈ ds, Sound f cd d)
    (h : Serves f cd cr strategy ds bytes s) (hp : s.pending = .readBody b) (hec : c.ec = none)
    (hlen : c.received.length = b.size) (hstart : bytes ++ c.received <+: ds.flatMap (frame f cd))
    (ht : complete f cd cr strategy s c = .ok t) : Serves f cd cr strategy ds (bytes ++ c.received) t := by
  obtain ⟨d, data, hnext, hwhole, hstrategy, hreplies, rfl⟩ := h.reply hds hp hec hlen hstart ht
  by_cases haccepted : Accepted f cr (⟨.ok, data⟩ : Response A)
  · obtain ⟨connection, hreply⟩ := doReply_accepted (s := { s with
      connection := { s.connection with inboundData := c.received }, cdata := d,
      requests := s.requests ++ [d], response := ⟨.ok, data⟩ }) haccepted
    rw [hreply]
    refine .of_between hnext hwhole ?_ (by simp) fun put hput => ?_
    · exact List.rel_append hreplies (.cons ⟨rfl, ⟨c.now, hstrategy⟩, haccepted⟩ .nil)
    · cases hput
      exact ⟨s.replies, ⟨.ok, data⟩, rfl, rfl⟩
  · obtain ⟨connection, hreply⟩ := doReply_refused (s := { s with
      connection := { s.connection with inboundData := c.received }, cdata := d,
      requests := s.requests ++ [d], response := ⟨.ok, data⟩ }) haccepted
    rw [hreply]
    exact .of_ended hnext (by rw [hwhole]) (.inr ⟨s.requests, d, rfl, hreplies⟩) rfl

/-- **Every handler keeps the session serving its client**, whose bytes are those of its frames. -/
theorem serves_complete (hds : ∀ d ∈ ds, Accepted f cd d ∧ Sound f cd d) (h : Serves f cd cr strategy ds bytes s)
    (hfits : s.pending.Fits c) (hstart : bytes ++ c.received <+: ds.flatMap (frame f cd))
    (ht : complete f cd cr strategy s c = .ok t) : Serves f cd cr strategy ds (bytes ++ c.received) t := by
  cases hp : s.pending with
  | accept =>
    have hnone : c.received = [] := List.length_eq_zero_iff.mp (by simpa [hp, Pending.size] using hfits.1)
    rw [complete_accept hp] at ht
    cases ht
    rwa [hnone, List.append_nil]
  | idle =>
    rw [complete_idle hp] at ht
    cases ht
    exact .of_ended h.requests (h.arrived.trans (List.prefix_append _ _)) h.replies hp
  | handshake =>
    have hnone : c.received = [] := List.length_eq_zero_iff.mp (by simpa [hp, Pending.size] using hfits.1)
    obtain ⟨hbytes, hreplies⟩ := h.between (.inr (.inl hp))
    cases hec : c.ec with
    | some e => simp [complete, hp, hec, onInitialized] at ht
    | none =>
      simp only [complete, hp, hec, onInitialized, doReceive, Except.ok.injEq] at ht
      subst ht
      rw [hnone, List.append_nil]
      exact .of_between h.requests hbytes hreplies (by simp) (by simp)
  | write put =>
    have hnone : c.received = [] := List.length_eq_zero_iff.mp (by simpa [hp, Pending.size] using hfits.1)
    obtain ⟨hbytes, hreplies⟩ := h.between (.inr (.inr (.inr ⟨put, hp⟩)))
    cases hec : c.ec with
    | some e => exact serves_error h hec (by simp [hp]) (by simp [hp]) ht _
    | none =>
      simp only [complete, hp, hec, onWritten, doReceive, Except.ok.injEq] at ht
      subst ht
      rw [hnone, List.append_nil]
      exact .of_between h.requests hbytes hreplies (by simp) (by simp)
  | readHeader =>
    cases hec : c.ec with
    | some e => exact serves_error h hec (by simp [hp]) (by simp [hp]) ht _
    | none => exact serves_header (fun d hd => (hds d hd).1) h hp hec (by rw [hfits.2 hec, hp, Pending.size]) hstart ht
  | readBody b =>
    cases hec : c.ec with
    | some e => exact serves_error h hec (by simp [hp]) (by simp [hp]) ht _
    | none => exact serves_body (fun d hd => (hds d hd).2) h hp hec (by rw [hfits.2 hec, hp, Pending.size]) hstart ht

/-- **No handler throws** when the requests decode, the strategy accepts them and the initialization succeeds. -/
theorem complete_returns (hds : ∀ d ∈ ds, Accepted f cd d ∧ Decodes f cd d ∧ ∀ now, ∃ a, strategy now d = .ok a)
    (h : Serves f cd cr strategy ds bytes s) (hfits : s.pending.Fits c)
    (hstart : bytes ++ c.received <+: ds.flatMap (frame f cd)) (hinit : s.pending = .handshake → c.ec = none) :
    ∃ t, complete f cd cr strategy s c = .ok t := by
  by_cases hacc : s.pending = .accept
  · exact ⟨s, complete_accept hacc⟩
  by_cases hshake : s.pending = .handshake
  · exact ⟨_, by rw [complete, hshake, hinit hshake]; rfl⟩
  cases hec : c.ec with
  | some e =>
    obtain ⟨connection, ht⟩ := complete_error f cd cr strategy hec hacc hshake
    exact ⟨_, ht⟩
  | none =>
    have hlen := hfits.2 hec
    cases hp : s.pending with
    | accept => exact absurd hp hacc
    | handshake => exact absurd hp hshake
    | idle => exact ⟨s, complete_idle hp⟩
    | write put => exact ⟨_, by rw [complete, hp]⟩
    | readHeader =>
      obtain ⟨d, hnext, hreceived⟩ := h.header (fun d hd => (hds d hd).1) hp (by rw [hlen, hp, Pending.size]) hstart
      obtain ⟨connection, ht, -⟩ := complete_header cr strategy c.now hp
        (hds d (hnext.subset (by simp))).1
      rw [← hreceived, ← hec] at ht
      exact ⟨_, ht⟩
    | readBody b =>
      obtain ⟨d, hnext, -, hreceived, hdata, -⟩ := h.body hp (by rw [hlen, hp, Pending.size]) hstart
      obtain ⟨-, hdecodes, hstrategy⟩ := hds d (hnext.subset (by simp))
      obtain ⟨a, ha⟩ := hstrategy c.now
      have ht := complete_body cr strategy c.now hp hdata hdecodes
      rw [ha, ok_bind, ← hreceived, ← hec] at ht
      exact ⟨_, ht⟩

/-- **A handler ends the session without an error** only when the reply to a request is refused; nothing but the
frames of the requests has been received by then. -/
theorem refused_of_ended (hds : ∀ d ∈ ds, Accepted f cd d ∧ Sound f cd d) (h : Serves f cd cr strategy ds bytes s)
    (hfits : s.pending.Fits c) (hstart : bytes ++ c.received <+: ds.flatMap (frame f cd)) (hec : c.ec = none)
    (hp : s.pending ≠ .idle) (ht : complete f cd cr strategy s c = .ok t) (hended : t.pending = .idle) :
    ∃ d data, s.requests ++ [d] <+: ds ∧ strategy c.now d = .ok data ∧ ¬ Accepted f cr (⟨.ok, data⟩ : Response A) ∧
      bytes ++ c.received = t.requests.flatMap (frame f cd) := by
  have hlen := hfits.2 hec
  cases hpending : s.pending with
  | idle => exact absurd hpending hp
  | accept =>
    rw [complete_accept hpending] at ht
    cases ht
    exact absurd hended hp
  | handshake =>
    simp only [complete, hpending, hec, onInitialized, doReceive, Except.ok.injEq] at ht
    simp [← ht] at hended
  | write put =>
    simp only [complete, hpending, hec, onWritten, doReceive, Except.ok.injEq] at ht
    simp [← ht] at hended
  | readHeader =>
    obtain ⟨d, hnext, hreceived⟩ := h.header (fun d hd => (hds d hd).1) hpending (by rw [hlen, hpending, Pending.size])
      hstart
    obtain ⟨connection, hcomplete, -⟩ := complete_header cr strategy c.now hpending (hds d (hnext.subset (by simp))).1
    rw [← hreceived, ← hec] at hcomplete
    cases hcomplete.symm.trans ht
    simp at hended
  | readBody b =>
    obtain ⟨d, data, hnext, hwhole, hstrategy, -, rfl⟩ := h.reply (fun d hd => (hds d hd).2) hpending hec
      (by rw [hlen, hpending, Pending.size]) hstart ht
    by_cases haccepted : Accepted f cr (⟨.ok, data⟩ : Response A)
    · obtain ⟨connection, hwrite⟩ := doReply_accepted (s := { s with
        connection := { s.connection with inboundData := c.received }, cdata := d,
        requests := s.requests ++ [d], response := ⟨.ok, data⟩ }) haccepted
      simp [hwrite] at hended
    · obtain ⟨connection, hreply⟩ := doReply_refused (s := { s with
        connection := { s.connection with inboundData := c.received }, cdata := d,
        requests := s.requests ++ [d], response := ⟨.ok, data⟩ }) haccepted
      exact ⟨d, data, hnext, hstrategy, haccepted, by rw [hwhole, hreply]⟩

/-- **No handler ends the session** when the transport reports no error and no reply is refused. -/
theorem complete_continues (hds : ∀ d ∈ ds, Accepted f cd d ∧ Sound f cd d) (h : Serves f cd cr strategy ds bytes s)
    (hfits : s.pending.Fits c) (hstart : bytes ++ c.received <+: ds.flatMap (frame f cd)) (hec : c.ec = none)
    (hreply : ∀ d data, s.requests ++ [d] <+: ds → strategy c.now d = .ok data →
      Accepted f cr (⟨.ok, data⟩ : Response A))
    (hp : s.pending ≠ .idle) (ht : complete f cd cr strategy s c = .ok t) : t.pending ≠ .idle := by
  intro hended
  obtain ⟨d, data, hnext, hstrategy, hrefused, -⟩ := refused_of_ended hds h hfits hstart hec hp ht hended
  exact hrefused (hreply d data hnext hstrategy)

end Session

/-! ## All sessions -/

namespace AsyncServer

def Event.received (i : Nat) : Event D A → Bytes
  | .accepted .. => []
  | .completed j c => if j = i then c.received else []

def received (i : Nat) (es : List (Event D A)) : Bytes := es.flatMap (Event.received i)

theorem received_snoc (i : Nat) (es : List (Event D A)) (e : Event D A) :
    received i (es ++ [e]) = received i es ++ Event.received i e := by
  simp [received]

/-- An event that is possible, and fails no initialization. -/
def Orderly (srv : AsyncServer D A) (e : Event D A) : Prop :=
  srv.Possible e ∧ match e with
    | .accepted .. => True
    | .completed i c => ∀ s, srv.sessions[i]? = some s → s.pending = .handshake → c.ec = none

instance (srv : AsyncServer D A) (e : Event D A) : Decidable (srv.Orderly e) :=
  match e with
  | .accepted .. => inferInstanceAs (Decidable (_ ∧ True))
  | .completed i c =>
    have : Decidable (∀ s, srv.sessions[i]? = some s → s.pending = .handshake → c.ec = none) :=
      decidable_of_iff (srv.sessions[i]?.all fun s => decide (s.pending = .handshake → c.ec = none))
        (by simp only [Option.all_eq_true, decide_eq_true_eq])
    inferInstanceAs (Decidable (_ ∧ _))

def DistinctIds (srv : AsyncServer D A) : Prop :=
  ∀ (i j : Nat) (s t : Session D A), srv.sessions[i]? = some s → srv.sessions[j]? = some t →
    s.sessionId = t.sessionId → i = j

/-- No operation of session `i` has reported an error since it was accepted. -/
def NoError (i : Nat) (es : List (Event D A)) : Prop := ∀ c, Event.completed i c ∈ es → c.ec = none

/-- Every session serves its own client, and has read what it has received when it has ended without an error. -/
structure Serving (clients : Nat → List D) (es : List (Event D A)) (srv : AsyncServer D A) : Prop where
  wellFormed : srv.WellFormed
  serves : ∀ (i : Nat) (s : Session D A), srv.sessions[i]? = some s → s.Serves f cd cr strategy (clients i) (received i es)
  absent : ∀ i, srv.sessions.length ≤ i → received i es = []
  whole : ∀ (i : Nat) (s : Session D A), srv.sessions[i]? = some s → s.pending = .idle → NoError i es →
    received i es = s.requests.flatMap (frame f cd)

variable {f cd cr strategy} {secured : Bool} {srv srv' : AsyncServer D A} {clients : Nat → List D}
  {es : List (Event D A)} {e : Event D A}

theorem NoError.init {i : Nat} (h : NoError i (es ++ [e])) : NoError i es := fun c hc =>
  h c (List.mem_append_left _ hc)

theorem WellFormed.distinctIds (h : srv.WellFormed) (hlen : srv.sessions.length ≤ sizeModulus) :
    srv.DistinctIds := by
  intro i j s t hs ht hid
  have hi := (List.getElem?_eq_some_iff.mp hs).1
  have hj := (List.getElem?_eq_some_iff.mp ht).1
  rwa [h.sessionId i s hs, h.sessionId j t ht, Nat.mod_eq_of_lt (by omega), Nat.mod_eq_of_lt (by omega)] at hid

theorem serves_create (id : Nat) (cdata : D) (response : Response A) (ds : List D) :
    (Session.create id cdata response).Serves f cd cr strategy ds [] :=
  .of_between List.nil_prefix rfl .nil (by simp [Session.create]) (by simp [Session.create])

theorem serving_init (cdata : D) (response : Response A) :
    (init cdata response).Serving f cd cr strategy clients [] where
  wellFormed := wellFormed_init cdata response
  serves i s hs := by
    simp only [init, getElem?_doAccept] at hs
    split at hs
    · cases hs
      exact serves_create _ _ _ _
    · simp at hs
  absent i _ := rfl
  whole i s hs hp := by
    simp only [init, getElem?_doAccept] at hs
    split at hs
    · cases hs
      simp [Session.create] at hp
    · simp at hs

theorem serving_accepted {i : Nat} {s : Session D A} (h : srv.Serving f cd cr strategy clients es)
    (hs : srv.sessions[i]? = some s) (hp : s.pending = .accept) (ec : ErrorCode) (cdata : D) (response : Response A) :
    (doAccept { srv with sessions := srv.sessions.set i { s with pending := acceptedPending secured ec } }
      cdata response).Serving f cd cr strategy clients (es ++ [.accepted i ec cdata response]) := by
  have hreceived : ∀ j, received j (es ++ [Event.accepted i ec cdata response]) = received j es := fun j => by
    rw [received_snoc, Event.received, List.append_nil]
  refine ⟨wellFormed_accepted (t := { s with pending := acceptedPending secured ec }) h.wellFormed hs hp rfl
    (acceptedPending_ne_accept ec) cdata response, fun j t ht => ?_, fun j hj => ?_, fun j t ht hended hnone => ?_⟩
  · rw [hreceived]
    simp only [getElem?_doAccept, List.length_set, getElem?_set_some hs] at ht
    split at ht
    · rename_i hj
      cases ht
      rw [h.absent j hj.ge]
      exact serves_create _ _ _ _
    split at ht
    · rename_i hj
      cases ht
      obtain ⟨hbytes, hreplies⟩ := (h.serves i s hs).between (.inl hp)
      rw [hj]
      refine .of_between (h.serves i s hs).requests hbytes hreplies ?_ ?_
      all_goals cases ec with
        | some e => simp [acceptedPending]
        | none => cases secured <;> simp [acceptedPending]
    · exact h.serves j t ht
  · rw [hreceived]
    simp only [doAccept, List.length_append, List.length_set, List.length_singleton] at hj
    exact h.absent j (by omega)
  · rw [hreceived]
    simp only [getElem?_doAccept, List.length_set, getElem?_set_some hs] at ht
    split at ht
    · cases ht
      simp [Session.create] at hended
    split at ht
    · rename_i hj
      cases ht
      rw [hj]
      exact ((h.serves i s hs).between (.inl hp)).1
    · exact h.whole j t ht hended hnone.init

theorem serving_completed {i : Nat} {s t : Session D A} {c : Completion} (h : srv.Serving f cd cr strategy clients es)
    (hs : srv.sessions[i]? = some s) (hp : s.pending ≠ .accept) (hhandled : Session.Handled f cr s t)
    (ht : t.Serves f cd cr strategy (clients i) (received i es ++ c.received))
    (hwhole : t.pending = .idle → c.ec = none → received i es ++ c.received = t.requests.flatMap (frame f cd)) :
    ({ srv with sessions := srv.sessions.set i t } : AsyncServer D A).Serving f cd cr strategy clients
      (es ++ [.completed i c]) := by
  refine ⟨wellFormed_completed h.wellFormed hs hp hhandled, fun j u hu => ?_, fun j hj => ?_,
    fun j u hu hended hnone => ?_⟩
  · simp only [getElem?_set_some hs] at hu
    rw [received_snoc, Event.received]
    split at hu
    · rename_i hj
      cases hu
      rw [hj, if_pos rfl]
      exact ht
    · rename_i hj
      rw [if_neg (Ne.symm hj), List.append_nil]
      exact h.serves j u hu
  · have hi := (List.getElem?_eq_some_iff.mp hs).1
    simp only [List.length_set] at hj
    rw [received_snoc, Event.received, if_neg (by omega), List.append_nil]
    exact h.absent j hj
  · simp only [getElem?_set_some hs] at hu
    rw [received_snoc, Event.received]
    split at hu
    · rename_i hj
      cases hu
      rw [hj] at hnone ⊢
      rw [if_pos rfl]
      exact hwhole hended (hnone c (by simp))
    · rename_i hj
      rw [if_neg (Ne.symm hj), List.append_nil]
      exact h.whole j u hu hended hnone.init

/-- **Every step is taken and keeps the sessions serving** while the clients send frames of requests that the
server accepts. -/
theorem serving_step
    (hclients : ∀ i, ∀ d ∈ clients i, Accepted f cd d ∧ Decodes f cd d ∧ ∀ now, ∃ a, strategy now d = .ok a)
    (h : srv.Serving f cd cr strategy clients es) (he : srv.Orderly e)
    (hstart : ∀ i, received i (es ++ [e]) <+: (clients i).flatMap (frame f cd)) :
    ∃ srv', Step f cd cr strategy secured srv e srv' ∧ srv'.Serving f cd cr strategy clients (es ++ [e]) := by
  cases e with
  | accepted i ec cdata response =>
    obtain ⟨s, hs, hp⟩ := he.1
    exact ⟨_, step_accepted hs hp ec cdata response, serving_accepted h hs hp ec cdata response⟩
  | completed i c =>
    obtain ⟨⟨s, hs, hp, hidle, hfits⟩, hinit⟩ := he
    have hown := hstart i
    rw [received_snoc, Event.received, if_pos rfl] at hown
    obtain ⟨t, ht⟩ := Session.complete_returns (hclients i) (h.serves i s hs) hfits hown (hinit s hs)
    have hsound : ∀ d ∈ clients i, Accepted f cd d ∧ Sound f cd d := fun d hd =>
      ⟨(hclients i d hd).1, (hclients i d hd).2.1.sound⟩
    have hserves := Session.serves_complete hsound (h.serves i s hs) hfits hown ht
    refine ⟨{ srv with sessions := srv.sessions.set i t }, ?_, serving_completed h hs hp
      (Session.handled_complete hp ht) hserves fun hended hec => ?_⟩
    · rw [Step, step_completed hs, ht, ok_bind]
    · obtain ⟨-, -, -, -, -, hwhole⟩ :=
        Session.refused_of_ended hsound (h.serves i s hs) hfits hown hec hidle ht hended
      exact hwhole

/-- **In every run every session serves its own client.** -/
theorem serving_run {cdata : D} {response : Response A}
    (hclients : ∀ i, ∀ d ∈ clients i, Accepted f cd d ∧ Decodes f cd d ∧ ∀ now, ∃ a, strategy now d = .ok a)
    (h : Always (Step f cd cr strategy secured) Orderly (init cdata response) es)
    (hstart : ∀ i, received i es <+: (clients i).flatMap (frame f cd)) :
    ∃ srv, Runs (Step f cd cr strategy secured) (init cdata response) es srv ∧
      srv.Serving f cd cr strategy clients es := by
  refine h.runs_invariant (serving_init cdata response) fun es₁ srv e hes hserving he =>
    serving_step hclients hserving he fun i => .trans ?_ (hstart i)
  obtain ⟨es₂, rfl⟩ := hes
  exact ⟨received i es₂, by simp [received]⟩

/-- **What a session has received** without an error is the frames of the requests that it has read, and perhaps the
header of the next one. -/
theorem Serving.arrived {i : Nat} {s : Session D A} (h : srv.Serving f cd cr strategy clients es)
    (hs : srv.sessions[i]? = some s) (hnone : NoError i es) : received i es = s.requests.flatMap (frame f cd) ∨
      ∃ d, s.requests ++ [d] <+: clients i ∧
        received i es = s.requests.flatMap (frame f cd) ++ formatHeader (encode f cd d).length := by
  have hserves := h.serves i s hs
  cases hp : s.pending with
  | idle => exact .inl (h.whole i s hs hp hnone)
  | accept => exact .inl (hserves.between (.inl hp)).1
  | handshake => exact .inl (hserves.between (.inr (.inl hp))).1
  | readHeader => exact .inl (hserves.between (.inr (.inr (.inl hp)))).1
  | write put => exact .inl (hserves.between (.inr (.inr (.inr ⟨put, hp⟩)))).1
  | readBody b =>
    obtain ⟨d, hnext, hbytes, -⟩ := hserves.inside b hp
    exact .inr ⟨d, hnext, hbytes⟩

/-! ## After an error -/

theorem idle_step {i : Nat} {s : Session D A} (hs : srv.sessions[i]? = some s) (hp : s.pending = .idle)
    (hstep : Step f cd cr strategy secured srv e srv') : srv'.sessions[i]? = some s := by
  rcases session_of_step hs (by simp [hp]) hstep with ⟨c, t, -, ht, hs'⟩ | ⟨-, hs'⟩
  · rw [Session.complete_idle hp] at ht
    cases ht
    exact hs'
  · exact hs'

theorem idle_run {i : Nat} {s : Session D A} (hs : srv.sessions[i]? = some s) (hp : s.pending = .idle)
    (hrun : Runs (Step f cd cr strategy secured) srv es srv') : srv'.sessions[i]? = some s :=
  hrun.invariant (I := fun _ srv => srv.sessions[i]? = some s) hs fun _ _ _ _ _ ih hstep => idle_step ih hp hstep

/-- **Nothing is sent after an error**: a session keeps the replies it had when the error came. -/
theorem replies_after_error {i : Nat} {s : Session D A} {c : Completion} {fault : Fault} (he : srv.Orderly (.completed i c))
    (hec : c.ec = some fault) (hrun : Runs (Step f cd cr strategy secured) srv (.completed i c :: es) srv')
    (hs : srv'.sessions[i]? = some s) : ∃ s₁, srv.sessions[i]? = some s₁ ∧ s.replies = s₁.replies := by
  obtain ⟨⟨s₁, hs₁, hp, -, -⟩, hinit⟩ := he
  have hshake : s₁.pending ≠ .handshake := fun hshake => by simp [hinit s₁ hs₁ hshake] at hec
  obtain ⟨connection, ht⟩ := Session.complete_error f cd cr strategy hec hp hshake
  obtain ⟨srv₁, hstep, hrun⟩ := runs_cons_iff.mp hrun
  rw [Step, step_completed hs₁, ht, ok_bind] at hstep
  cases hstep
  have hlast := idle_run (s := { s₁ with connection, pending := .idle })
    (by rw [getElem?_set_some hs₁, if_pos rfl]) rfl hrun
  rw [hs] at hlast
  cases hlast
  exact ⟨s₁, hs₁, rfl⟩

end AsyncServer

end Order

/-! ## The calculator's server -/

section Calculator
open Calculator AsyncServer

/-- A request that comes in a frame, decodes, and has an operation that the server carries out. -/
structure WellFormedRequest (f : Filter) (cd : Codec ClientData) (d : ClientData) : Prop where
  accepted : Accepted f cd d
  decodes : Decodes f cd d
  valid : d.operation.Valid

/-- **Sessions answer in order and independently**, in every run in which initializations succeed and client
`i` sends a part of the frames of `clients i`: no handler throws, one accept is outstanding, at most
`sizeModulus` sessions have different ids, and each session has read the first `k` or `k + 1` of its requests
and started to write the replies to the first `k`, none of them after an error. Before an error it has received
the frames of the requests that it has read, and perhaps the header of the next one. -/
theorem sessions_answer_in_order (f : Filter) (cd : Codec ClientData) (cr : Codec (Response ServerData))
    (secured : Bool) (cdata : ClientData) (response : Response ServerData) (clients : Nat → List ClientData)
    (es : List (Event ClientData ServerData)) (hclients : ∀ i, ∀ d ∈ clients i, WellFormedRequest f cd d)
    (h : Always (Step f cd cr serverAction secured) Orderly (.init cdata response) es)
    (hstart : ∀ i, received i es <+: (clients i).flatMap (frame f cd)) :
    ∃ srv, Runs (Step f cd cr serverAction secured) (.init cdata response) es srv ∧
      (∃! i, srv.Accepting i) ∧
      (srv.sessions.length ≤ sizeModulus → srv.DistinctIds) ∧
      ∀ i s, srv.sessions[i]? = some s →
        (∃ k, (s.requests = (clients i).take k ∨ s.requests = (clients i).take (k + 1)) ∧
          Replies f cr serverAction ((clients i).take k) s.replies) ∧
        s.requests.flatMap (frame f cd) <+: received i es ∧
        (NoError i es → received i es = s.requests.flatMap (frame f cd) ∨
          ∃ d, s.requests ++ [d] <+: clients i ∧
            received i es = s.requests.flatMap (frame f cd) ++ formatHeader (encode f cd d).length) ∧
        ∀ es₁ c es₂, es = es₁ ++ .completed i c :: es₂ → c.ec ≠ none →
          ∃ srv₁ s₁, Runs (Step f cd cr serverAction secured) (.init cdata response) es₁ srv₁ ∧
            srv₁.sessions[i]? = some s₁ ∧ s.replies = s₁.replies := by
  obtain ⟨srv, hrun, hserving⟩ := serving_run (fun i d hd => ⟨(hclients i d hd).accepted, (hclients i d hd).decodes,
    fun now => (serverAction_ok_iff now d).mpr (hclients i d hd).valid⟩) h hstart
  refine ⟨srv, hrun, hserving.wellFormed.existsUnique_accepting, hserving.wellFormed.distinctIds, fun i s hs => ?_⟩
  have hserves := hserving.serves i s hs
  refine ⟨?_, hserves.arrived, hserving.arrived hs, fun es₁ c es₂ hes hec => ?_⟩
  · rcases hserves.replies with hreplies | ⟨done, d, hreq, hreplies⟩
    · have htake := List.prefix_iff_eq_take.mp hserves.requests
      exact ⟨s.requests.length, .inl htake, htake ▸ hreplies⟩
    · have hall := hserves.requests
      rw [hreq] at hall
      have htake := List.prefix_iff_eq_take.mp ((List.prefix_append done [d]).trans hall)
      refine ⟨done.length, .inr ?_, htake ▸ hreplies⟩
      rw [hreq, List.prefix_iff_eq_take.mp hall, List.length_append, List.length_singleton]
  · obtain ⟨fault, hfault⟩ := Option.ne_none_iff_exists'.mp hec
    subst hes
    obtain ⟨srv₁, hrun₁, hrun₂⟩ := runs_append_iff.mp hrun
    obtain ⟨s₁, hs₁, hreplies⟩ := replies_after_error (h es₁ _ es₂ srv₁ rfl hrun₁) hfault hrun₂ hs
    exact ⟨srv₁, s₁, hrun₁, hs₁, hreplies⟩

/-! ### Two clients -/

/-- One client is answered while the other sends its header and leaves. -/
def twoClients : List (Event ClientData ServerData) :=
  [.accepted 0 none blankRequest blankResponse, .accepted 1 none blankRequest blankResponse,
    .completed 1 ⟨sumFrame.take 8, none, 0⟩, .completed 0 ⟨sumFrame.take 8, none, 0⟩,
    .completed 0 ⟨sumFrame.drop 8, none, 5⟩, .completed 1 ⟨[], some .eof, 6⟩, .completed 0 ⟨[], none, 7⟩]

theorem sumRequest_decodes : Decodes defaultFilter (requestCodec plainArchive) sumRequest := by
  have h2 : Double.Proper (.finite 2) := ⟨2, by decide +kernel⟩
  have h3 : Double.Proper (.finite 3) := ⟨3, by decide +kernel⟩
  have hdecodes : Decodes (createFilter ⟨id, .ok⟩ false) (requestCodec plainArchive) sumRequest :=
    request_decodes (by simp) plainArchive_lawful h2 rfl h3 rfl
  exact hdecodes

/-- The server has two sessions with clients, and a third one waits for a client. -/
theorem sessions_answer_in_order_two_clients :
    ∃ srv, Runs (CalculatorStep false) (.init blankRequest blankResponse) twoClients srv ∧
      (∃! i, srv.Accepting i) ∧
      (srv.sessions.length ≤ sizeModulus → srv.DistinctIds) ∧
      ∀ i s, srv.sessions[i]? = some s →
        (∃ k, (s.requests = [sumRequest].take k ∨ s.requests = [sumRequest].take (k + 1)) ∧
          Replies defaultFilter (responseCodec plainArchive) serverAction ([sumRequest].take k) s.replies) ∧
        s.requests.flatMap (frame defaultFilter (requestCodec plainArchive)) <+: received i twoClients ∧
        (NoError i twoClients →
          received i twoClients = s.requests.flatMap (frame defaultFilter (requestCodec plainArchive)) ∨
          ∃ d, s.requests ++ [d] <+: [sumRequest] ∧ received i twoClients =
            s.requests.flatMap (frame defaultFilter (requestCodec plainArchive)) ++
              formatHeader (encode defaultFilter (requestCodec plainArchive) d).length) ∧
        ∀ es₁ c es₂, twoClients = es₁ ++ .completed i c :: es₂ → c.ec ≠ none →
          ∃ srv₁ s₁, Runs (CalculatorStep false) (.init blankRequest blankResponse) es₁ srv₁ ∧
            srv₁.sessions[i]? = some s₁ ∧ s.replies = s₁.replies := by
  refine sessions_answer_in_order _ _ _ false blankRequest blankResponse (fun _ => [sumRequest]) twoClients
    (fun i d hd => ?_) ?_ fun i => ?_
  · obtain rfl := List.mem_singleton.mp hd
    exact ⟨by decide +kernel, sumRequest_decodes, by decide⟩
  · exact always_of_alongside nextUp (fun _ _ _ => nextUp_of_step) (by decide +kernel)
  · rw [List.flatMap_singleton, ← sumFrame]
    rcases i with _ | _ | i
    · simp [twoClients, received, Event.received]
    · simp [twoClients, received, Event.received, List.take_prefix]
    · simp [twoClients, received, Event.received]

/-! ### More clients than a `size_t` counts -/

/-- So many clients connect and send nothing. -/
def acceptances (n : Nat) : List (Event ClientData ServerData) :=
  (List.range n).map fun i => .accepted i none blankRequest blankResponse

theorem acceptances_succ (n : Nat) :
    acceptances (n + 1) = acceptances n ++ [.accepted n none blankRequest blankResponse] := by
  simp [acceptances, List.range_succ]

theorem length_of_acceptances {n : Nat} {srv : AsyncServer ClientData ServerData}
    (h : Runs (CalculatorStep false) (.init blankRequest blankResponse) (acceptances n) srv) :
    srv.sessions.length = n + 1 := by
  induction n generalizing srv with
  | zero =>
    rw [← runs_nil_iff.mp h]
    rfl
  | succ n ih =>
    rw [acceptances_succ, runs_snoc_iff] at h
    obtain ⟨srv, h, hstep⟩ := h
    obtain ⟨s, hs, hp⟩ := ((wellFormed_run h (wellFormed_init _ _)).accepting n).mpr (ih h).symm
    cases (step_accepted hs hp none blankRequest blankResponse).symm.trans hstep
    simp [doAccept, ih h]

theorem orderly_acceptances (n : Nat) :
    Always (CalculatorStep false) Orderly (.init blankRequest blankResponse) (acceptances n) := by
  induction n with
  | zero => exact always_nil _ _
  | succ n ih =>
    rw [acceptances_succ]
    refine ih.snoc _ _ fun srv h => ⟨?_, trivial⟩
    exact ((wellFormed_run h (wellFormed_init _ _)).accepting n).mpr (length_of_acceptances h).symm

theorem received_acceptances (i n : Nat) : received i (acceptances n) = [] := by
  simp [received, acceptances, Event.received]

theorem ids_repeat :
    ¬ ∀ (clients : Nat → List ClientData) (es : List (Event ClientData ServerData)),
      (∀ i, ∀ d ∈ clients i, WellFormedRequest defaultFilter (requestCodec plainArchive) d) →
      Always (CalculatorStep false) Orderly (.init blankRequest blankResponse) es →
      (∀ i, received i es <+: (clients i).flatMap (frame defaultFilter (requestCodec plainArchive))) →
      ∃ srv, Runs (CalculatorStep false) (.init blankRequest blankResponse) es srv ∧ srv.DistinctIds := by
  intro h
  obtain ⟨srv, hrun, hdistinct⟩ := h (fun _ => []) (acceptances sizeModulus) (by simp)
    (orderly_acceptances sizeModulus) (by simp [received_acceptances])
  have hlen := length_of_acceptances hrun
  have hwf := wellFormed_run hrun (wellFormed_init _ _)
  obtain ⟨s, hs⟩ : ∃ s, srv.sessions[0]? = some s := ⟨_, List.getElem?_eq_getElem (by omega)⟩
  obtain ⟨t, ht⟩ : ∃ t, srv.sessions[sizeModulus]? = some t := ⟨_, List.getElem?_eq_getElem (by omega)⟩
  have hid : s.sessionId = t.sessionId := by
    rw [hwf.sessionId 0 s hs, hwf.sessionId sizeModulus t ht, Nat.zero_mod, Nat.mod_self]
  exact absurd (hdistinct 0 sizeModulus s t hs ht hid) (by decide)

end Calculator

end TCPClientServer.Server
