import TCPClientServer.Server.Order

/-!
# Whatever a client sends

A client need not send frames of requests. What a session makes of the bytes that it receives, in whatever pieces, is
settled by the bytes and by the clock: the requests it reads, the replies it starts to write, and whether it waits,
ends or takes the server down.

* `Front`, `front` : what is in front of bytes;
* `Made`, `madeOf` : what a session makes of bytes; `madeOf_append` : of bytes that come later;
* `Session.MadeOf` : the session has made this of its bytes; `madeOf_complete`, `throws_iff`;
* `bytes_settle_sessions`.
-/

namespace TCPClientServer.Server
open TCPClientServer.Basis TCPClientServer.Io

/-- In front of bytes: not yet a header or a body, a header that is not valid or whose size no vector can have, or the
body behind a header. -/
inductive Front where
  | short
  | invalid
  | large
  | body (body rest : Bytes)
deriving DecidableEq

/-- What the two reads of a session find in front of bytes. -/
def front (bytes : Bytes) : Front :=
  if bytes.length < headerLength then .short
  else match handleDetermineDataSize (bytes.take headerLength) with
    | none => .invalid
    | some size =>
      if vectorMaxSize < size then .large
      else if bytes.length < headerLength + size then .short
      else .body ((bytes.drop headerLength).take size) (bytes.drop (headerLength + size))

inductive Outcome where
  | waiting (rest : Bytes)
  | ended
  | thrown (e : Exn)
deriving DecidableEq

def Pending.readings (p : Pending) (c : Completion) : List Int :=
  match p with
  | .readBody _ => [c.now]
  | _ => []

/-- What a session has made of bytes. -/
structure Made (D A : Type) where
  requests : List D
  replies : List (Response A)
  outcome : Outcome

section Bytes
variable {D A : Type} (f : Filter) (cd : Codec D) (cr : Codec (Response A)) (strategy : Int → D → Except Exn A)

/-- **What a session makes of bytes**; the clock is read once for each request. -/
def madeOf (nows : List Int) (bytes : Bytes) : Made D A :=
  match front bytes with
  | .short => ⟨[], [], .waiting bytes⟩
  | .invalid => ⟨[], [], .ended⟩
  | .large => ⟨[], [], .thrown .lengthError⟩
  | .body body rest =>
    match nows with
    | [] => ⟨[], [], .waiting bytes⟩
    | now :: nows =>
      match decode f cd body with
      | .error e => ⟨[], [], .thrown e⟩
      | .ok d =>
        match strategy now d with
        | .error e => ⟨[d], [], .thrown e⟩
        | .ok data =>
          if Accepted f cr ⟨.ok, data⟩ then
            let made := madeOf nows rest
            ⟨d :: made.requests, ⟨.ok, data⟩ :: made.replies, made.outcome⟩
          else ⟨[d], [], .ended⟩

variable {f cd cr strategy} {nows : List Int} {bytes rest header body : Bytes} {size : Nat}

/-! ## What is in front -/

theorem front_invalid (hlen : header.length = headerLength) (h : handleDetermineDataSize header = none) :
    front header = .invalid := by
  rw [front, if_neg (by omega), List.take_of_length_le hlen.le, h]

theorem front_large (hlen : header.length = headerLength) (h : handleDetermineDataSize header = some size)
    (hlarge : vectorMaxSize < size) : front header = .large := by
  rw [front, if_neg (by omega), List.take_of_length_le hlen.le, h]
  exact if_pos hlarge

/-- A body behind its header. -/
theorem front_body (hlen : header.length = headerLength) (h : handleDetermineDataSize header = some size)
    (hfits : size ≤ vectorMaxSize) (hbody : body.length = size) (rest : Bytes) :
    front (header ++ body ++ rest) = .body body rest := by
  have htake : (header ++ body ++ rest).take headerLength = header := by
    rw [List.append_assoc, ← hlen, List.take_left]
  have hdrop : (header ++ body ++ rest).drop headerLength = body ++ rest := by
    rw [List.append_assoc, ← hlen, List.drop_left]
  rw [front, if_neg (by simp only [List.length_append]; omega), htake, h]
  dsimp only
  rw [if_neg (by omega), if_neg (by simp only [List.length_append]; omega), ← List.drop_drop, hdrop, ← hbody,
    List.take_left, List.drop_left]

theorem front_append (h : front bytes = .body body rest) (later : Bytes) :
    front (bytes ++ later) = .body body (rest ++ later) := by
  unfold front at h
  split at h
  · cases h
  rename_i hlen
  split at h
  · cases h
  rename_i size hsize
  split at h
  · cases h
  rename_i hfits
  split at h
  · cases h
  rename_i hwhole
  cases h
  have hheader : (bytes.take headerLength).length = headerLength := by
    rw [List.length_take]
    omega
  have hbody : ((bytes.drop headerLength).take size).length = size := by
    rw [List.length_take, List.length_drop]
    omega
  have hsplit : bytes = bytes.take headerLength ++ (bytes.drop headerLength).take size ++
      bytes.drop (headerLength + size) := by
    rw [← List.drop_drop, List.append_assoc, List.take_append_drop, List.take_append_drop]
  conv => lhs; rw [hsplit, List.append_assoc]
  exact front_body hheader hsize (by omega) hbody _

/-! ## What is made of it -/

variable (f cd cr strategy) in
theorem madeOf_nil (bytes : Bytes) : (madeOf f cd cr strategy [] bytes).requests = [] ∧
    (madeOf f cd cr strategy [] bytes).replies = [] := by
  rw [madeOf]
  split <;> exact ⟨rfl, rfl⟩

theorem madeOf_header (hlen : header.length = headerLength) (h : handleDetermineDataSize header = some size)
    (hfits : size ≤ vectorMaxSize) : madeOf f cd cr strategy [] header = ⟨[], [], .waiting header⟩ := by
  rw [madeOf, front, if_neg (by omega), List.take_of_length_le hlen.le, h]
  dsimp only
  rw [if_neg (by omega)]
  by_cases hwhole : header.length < headerLength + size
  · rw [if_pos hwhole]
  · rw [if_neg hwhole]

variable (f cd cr strategy) in
structure Waits (nows : List Int) (bytes rest : Bytes) : Prop where
  used : (madeOf f cd cr strategy nows bytes).requests.length = nows.length
  outcome : (madeOf f cd cr strategy nows bytes).outcome = .waiting rest

theorem madeOf_body {now : Int} {d : D} {data : A} (hfront : front bytes = .body body rest)
    (hdecode : decode f cd body = .ok d) (hstrategy : strategy now d = .ok data)
    (haccepted : Accepted f cr (⟨.ok, data⟩ : Response A)) :
    madeOf f cd cr strategy (now :: nows) bytes =
      ⟨d :: (madeOf f cd cr strategy nows rest).requests, ⟨.ok, data⟩ :: (madeOf f cd cr strategy nows rest).replies,
        (madeOf f cd cr strategy nows rest).outcome⟩ := by
  rw [madeOf, hfront]
  simp only [hdecode, hstrategy, if_pos haccepted]

theorem waits_cons {now : Int} (h : Waits f cd cr strategy (now :: nows) bytes rest) :
    ∃ body rest' d data, front bytes = .body body rest' ∧ decode f cd body = .ok d ∧ strategy now d = .ok data ∧
      Accepted f cr (⟨.ok, data⟩ : Response A) ∧ Waits f cd cr strategy nows rest' rest := by
  obtain ⟨hused, houtcome⟩ := h
  rw [madeOf] at hused houtcome
  cases hfront : front bytes with
  | short => simp [hfront] at hused
  | invalid => simp [hfront] at hused
  | large => simp [hfront] at hused
  | body body rest' =>
    simp only [hfront] at hused houtcome
    cases hdecode : decode f cd body with
    | error e => simp [hdecode] at hused
    | ok d =>
      simp only [hdecode] at hused houtcome
      cases hstrategy : strategy now d with
      | error e => simp [hstrategy] at houtcome
      | ok data =>
        simp only [hstrategy] at hused houtcome
        by_cases haccepted : Accepted f cr (⟨.ok, data⟩ : Response A)
        · rw [if_pos haccepted] at hused houtcome
          exact ⟨body, rest', d, data, rfl, hdecode, hstrategy, haccepted, by simpa using hused, houtcome⟩
        · rw [if_neg haccepted] at houtcome
          cases houtcome

/-- **Bytes that come later** are put behind those that are left. -/
theorem madeOf_append {nows : List Int} {bytes : Bytes} (h : Waits f cd cr strategy nows bytes rest) (nows' : List Int)
    (later : Bytes) : madeOf f cd cr strategy (nows ++ nows') (bytes ++ later) =
      ⟨(madeOf f cd cr strategy nows bytes).requests ++ (madeOf f cd cr strategy nows' (rest ++ later)).requests,
        (madeOf f cd cr strategy nows bytes).replies ++ (madeOf f cd cr strategy nows' (rest ++ later)).replies,
        (madeOf f cd cr strategy nows' (rest ++ later)).outcome⟩ := by
  induction nows generalizing bytes with
  | nil =>
    obtain ⟨hrequests, hreplies⟩ := madeOf_nil f cd cr strategy bytes
    have hrest : bytes = rest := by
      have houtcome := h.outcome
      rw [madeOf] at houtcome
      split at houtcome <;> cases houtcome <;> rfl
    rw [hrequests, hreplies, hrest]
    rfl
  | cons now nows ih =>
    obtain ⟨body, rest', d, data, hfront, hdecode, hstrategy, haccepted, hwaits⟩ := waits_cons h
    rw [List.cons_append, madeOf_body (front_append hfront later) hdecode hstrategy haccepted,
      madeOf_body hfront hdecode hstrategy haccepted, ih hwaits]
    rfl

/-! ## A session -/

namespace Session

variable (f cd cr strategy) in
/-- The session has made this of its bytes; it has ended with them, or when an operation has failed. -/
structure MadeOf (failed : Prop) (nows : List Int) (bytes : Bytes) (s : Session D A) : Prop where
  requests : (madeOf f cd cr strategy nows bytes).requests = s.requests
  replies : (madeOf f cd cr strategy nows bytes).replies = s.replies
  used : s.requests.length = nows.length
  between : s.pending ≠ .idle → (∀ b, s.pending ≠ .readBody b) →
    (madeOf f cd cr strategy nows bytes).outcome = .waiting []
  inside : ∀ b, s.pending = .readBody b → ∃ header, header.length = headerLength ∧
    handleDetermineDataSize header = some b.size ∧ b.size ≤ vectorMaxSize ∧
    s.connection.inboundData.length = b.size ∧ (madeOf f cd cr strategy nows bytes).outcome = .waiting header
  ended : s.pending = .idle → (madeOf f cd cr strategy nows bytes).outcome = .ended ∨ failed

variable {s t : Session D A} {c : Completion} {failed failed' : Prop} {b : Connection.BodyRead}

theorem MadeOf.waits (h : s.MadeOf f cd cr strategy failed nows bytes) (hidle : s.pending ≠ .idle) :
    ∃ rest, Waits f cd cr strategy nows bytes rest := by
  have hused : (madeOf f cd cr strategy nows bytes).requests.length = nows.length := by rw [h.requests, h.used]
  by_cases hbody : ∃ b, s.pending = .readBody b
  · obtain ⟨b, hb⟩ := hbody
    obtain ⟨header, -, -, -, -, houtcome⟩ := h.inside b hb
    exact ⟨header, hused, houtcome⟩
  · exact ⟨[], hused, h.between hidle (not_exists.mp hbody)⟩

theorem MadeOf.waits_between (h : s.MadeOf f cd cr strategy failed nows bytes) (hidle : s.pending ≠ .idle)
    (hbody : ∀ b, s.pending ≠ .readBody b) : Waits f cd cr strategy nows bytes [] :=
  ⟨by rw [h.requests, h.used], h.between hidle hbody⟩

theorem MadeOf.waits_inside (h : s.MadeOf f cd cr strategy failed nows bytes) (hp : s.pending = .readBody b) :
    ∃ header, header.length = headerLength ∧ handleDetermineDataSize header = some b.size ∧ b.size ≤ vectorMaxSize ∧
      s.connection.inboundData.length = b.size ∧ Waits f cd cr strategy nows bytes header := by
  obtain ⟨header, hheader, hsize, hfits, hdata, houtcome⟩ := h.inside b hp
  exact ⟨header, hheader, hsize, hfits, hdata, by rw [h.requests, h.used], houtcome⟩

theorem madeOf_create (id : Nat) (cdata : D) (response : Response A) :
    (Session.create id cdata response).MadeOf f cd cr strategy failed [] [] where
  requests := rfl
  replies := rfl
  used := rfl
  between _ _ := rfl
  inside b hb := by simp [Session.create] at hb
  ended hp := by simp [Session.create] at hp

theorem MadeOf.goes_on (h : s.MadeOf f cd cr strategy failed nows bytes) (hidle : s.pending ≠ .idle)
    (hbody : ∀ b, s.pending ≠ .readBody b) {p : Pending} (hp : p ≠ .idle) (hp' : ∀ b, p ≠ .readBody b) :
    ({ s with pending := p } : Session D A).MadeOf f cd cr strategy failed nows bytes where
  requests := h.requests
  replies := h.replies
  used := h.used
  between _ _ := h.between hidle hbody
  inside b hb := absurd hb (hp' b)
  ended hidle' := absurd hidle' hp

/-- An operation fails, whatever it has received. -/
theorem MadeOf.fails (h : s.MadeOf f cd cr strategy failed nows bytes) (hidle : s.pending ≠ .idle) (hfailed : failed')
    (received : Bytes) (connection : Connection) : ({ s with connection, pending := .idle } : Session D A).MadeOf
      f cd cr strategy failed' nows (bytes ++ received) := by
  obtain ⟨rest, hwaits⟩ := h.waits hidle
  have happend := madeOf_append hwaits [] received
  obtain ⟨hrequests, hreplies⟩ := madeOf_nil f cd cr strategy (rest ++ received)
  rw [List.append_nil] at happend
  constructor
  · rw [happend, hrequests, List.append_nil, h.requests]
  · rw [happend, hreplies, List.append_nil, h.replies]
  · exact h.used
  · exact fun hne => absurd rfl hne
  · simp
  · exact fun _ => .inr hfailed

theorem MadeOf.mono (h : s.MadeOf f cd cr strategy failed nows bytes) {failed' : Prop} (hfailed : failed → failed') :
    s.MadeOf f cd cr strategy failed' nows bytes where
  requests := h.requests
  replies := h.replies
  used := h.used
  between := h.between
  inside := h.inside
  ended hidle := (h.ended hidle).imp_right hfailed

theorem madeOf_complete_header (h : s.MadeOf f cd cr strategy failed nows bytes) (hp : s.pending = .readHeader)
    (hec : c.ec = none) (hlen : c.received.length = headerLength) (ht : complete f cd cr strategy s c = .ok t) :
    t.MadeOf f cd cr strategy failed nows (bytes ++ c.received) := by
  have hwaits := h.waits_between (by simp [hp]) (by simp [hp])
  have happend := madeOf_append hwaits [] c.received
  rw [List.append_nil, List.nil_append] at happend
  have hheader := HeaderBuffer.fill_full s.connection.inboundHeader hlen
  rw [complete, hp] at ht
  simp only [Connection.handleReadHeader, Connection.prepareBody, hec, hheader] at ht
  cases hsize : handleDetermineDataSize c.received with
  | none =>
    simp only [hsize, ok_bind, pure_eq_ok, onReceived, Except.ok.injEq] at ht
    subst ht
    have hended : madeOf f cd cr strategy [] c.received = ⟨[], [], .ended⟩ := by
      rw [madeOf, front_invalid hlen hsize]
    rw [hended, List.append_nil, List.append_nil] at happend
    exact ⟨by rw [happend, h.requests], by rw [happend, h.replies], h.used, fun hne => absurd rfl hne, by simp,
      fun _ => .inl (by rw [happend])⟩
  | some size =>
    by_cases hfits : size ≤ vectorMaxSize
    · simp only [hsize, resize, if_pos hfits, ok_bind, pure_eq_ok, Except.ok.injEq] at ht
      subst ht
      rw [madeOf_header hlen hsize hfits, List.append_nil, List.append_nil] at happend
      exact ⟨by rw [happend, h.requests], by rw [happend, h.replies], h.used, fun _ hne => absurd rfl (hne _),
        fun b hb => by
          cases hb
          exact ⟨c.received, hlen, hsize, hfits, length_resized _ _, by rw [happend]⟩, by simp⟩
    · simp [hsize, resize, if_neg hfits] at ht

theorem front_inside (hlen : header.length = headerLength) (hsize : handleDetermineDataSize header = some b.size)
    (hfits : b.size ≤ vectorMaxSize) (hreceived : c.received.length = b.size) :
    front (header ++ c.received) = .body c.received [] := by
  simpa using front_body hlen hsize hfits hreceived []

theorem madeOf_doReply (hrequests : (madeOf f cd cr strategy nows bytes).requests = s.requests)
    (hused : s.requests.length = nows.length)
    (haccepted : Accepted f cr s.response → (madeOf f cd cr strategy nows bytes).replies = s.replies ++ [s.response] ∧
      (madeOf f cd cr strategy nows bytes).outcome = .waiting [])
    (hrefused : ¬ Accepted f cr s.response → (madeOf f cd cr strategy nows bytes).replies = s.replies ∧
      (madeOf f cd cr strategy nows bytes).outcome = .ended) :
    (doReply f cr s).MadeOf f cd cr strategy failed nows bytes := by
  by_cases h : Accepted f cr s.response
  · obtain ⟨connection, hreply⟩ := doReply_accepted h
    obtain ⟨hreplies, houtcome⟩ := haccepted h
    rw [hreply]
    exact ⟨hrequests, hreplies, hused, fun _ _ => houtcome, by simp, by simp⟩
  · obtain ⟨connection, hreply⟩ := doReply_refused h
    obtain ⟨hreplies, houtcome⟩ := hrefused h
    rw [hreply]
    exact ⟨hrequests, hreplies, hused, fun hne => absurd rfl hne, by simp, fun _ => .inl houtcome⟩

/-- What the handler does with a body: the reply is written, or refused and the session ends. -/
theorem madeOf_complete_body (h : s.MadeOf f cd cr strategy failed nows bytes) (hp : s.pending = .readBody b)
    (hec : c.ec = none) (hlen : c.received.length = b.size) (ht : complete f cd cr strategy s c = .ok t) :
    t.MadeOf f cd cr strategy failed (nows ++ [c.now]) (bytes ++ c.received) := by
  obtain ⟨header, hheader, hsize, hfits, hdata, hwaits⟩ := h.waits_inside hp
  have happend := madeOf_append hwaits [c.now] c.received
  have hfront := front_inside hheader hsize hfits hlen
  have hbody : fill s.connection.inboundData c.received = c.received := fill_full (by rw [hlen, hdata])
  rw [complete, hp] at ht
  simp only [Connection.handleReadData, hec, hbody] at ht
  cases hdecode : decode f cd c.received with
  | error e => simp [hdecode] at ht
  | ok d =>
    cases hstrategy : strategy c.now d with
    | error e => simp [hdecode, hstrategy, onReceived] at ht
    | ok data =>
      simp only [hdecode, hstrategy, onReceived, ok_bind, pure_eq_ok, Except.ok.injEq] at ht
      subst ht
      have hmade : madeOf f cd cr strategy [c.now] (header ++ c.received) =
          if Accepted f cr (⟨.ok, data⟩ : Response A) then ⟨[d], [⟨.ok, data⟩], .waiting []⟩ else ⟨[d], [], .ended⟩ := by
        rw [madeOf, hfront]
        simp only [hdecode, hstrategy]
        rfl
      refine madeOf_doReply ?_ (by simp [h.used]) (fun haccepted => ?_) fun hrefused => ?_
      · rw [happend, hmade, h.requests]
        split <;> rfl
      · rw [happend, hmade, if_pos haccepted, h.replies]
        exact ⟨rfl, rfl⟩
      · rw [happend, hmade, if_neg hrefused, h.replies, List.append_nil]
        exact ⟨rfl, rfl⟩

/-- **Every handler makes this of what it receives.** -/
theorem madeOf_complete (h : s.MadeOf f cd cr strategy failed nows bytes) (hfits : s.pending.Fits c)
    (ht : complete f cd cr strategy s c = .ok t) :
    ∃ nows', t.MadeOf f cd cr strategy (failed ∨ c.ec ≠ none) nows' (bytes ++ c.received) := by
  -- operations that are not reads receive nothing
  have hnone : s.pending.size = 0 → bytes ++ c.received = bytes := fun hzero => by
    rw [List.length_eq_zero_iff.mp (Nat.le_zero.mp (hfits.1.trans_eq hzero)), List.append_nil]
  cases hec : c.ec with
  | some e =>
    by_cases hidle : s.pending = .idle
    · rw [complete_idle hidle] at ht
      cases ht
      rw [hnone (by rw [hidle]; rfl)]
      exact ⟨nows, h.mono .inl⟩
    by_cases hacc : s.pending = .accept
    · rw [complete_accept hacc] at ht
      cases ht
      rw [hnone (by rw [hacc]; rfl)]
      exact ⟨nows, h.mono .inl⟩
    by_cases hshake : s.pending = .handshake
    · simp [complete, hshake, hec, onInitialized] at ht
    obtain ⟨connection, heq⟩ := complete_error f cd cr strategy hec hacc hshake
    rw [heq] at ht
    cases ht
    exact ⟨nows, h.fails hidle (.inr (by simp)) c.received connection⟩
  | none =>
    have hlen := hfits.2 hec
    suffices hmade : ∃ nows', t.MadeOf f cd cr strategy failed nows' (bytes ++ c.received) from
      hmade.imp fun nows' hmade => hmade.mono .inl
    cases hp : s.pending with
    | readHeader => exact ⟨nows, madeOf_complete_header h hp hec (by rw [hlen, hp, Pending.size]) ht⟩
    | readBody b => exact ⟨_, madeOf_complete_body h hp hec (by rw [hlen, hp, Pending.size]) ht⟩
    | accept =>
      rw [complete_accept hp] at ht
      cases ht
      exact ⟨nows, by rwa [hnone (by rw [hp]; rfl)]⟩
    | idle =>
      rw [complete_idle hp] at ht
      cases ht
      exact ⟨nows, by rwa [hnone (by rw [hp]; rfl)]⟩
    | handshake =>
      simp only [complete, hp, hec, onInitialized, doReceive, Except.ok.injEq] at ht
      subst ht
      rw [hnone (by rw [hp]; rfl)]
      exact ⟨nows, h.goes_on (by simp [hp]) (by simp [hp]) (by simp) (by simp)⟩
    | write put =>
      simp only [complete, hp, hec, onWritten, doReceive, Except.ok.injEq] at ht
      subst ht
      rw [hnone (by rw [hp]; rfl)]
      exact ⟨nows, h.goes_on (by simp [hp]) (by simp [hp]) (by simp) (by simp)⟩

theorem throws_header_iff (h : s.MadeOf f cd cr strategy failed nows bytes) (hp : s.pending = .readHeader)
    (hec : c.ec = none) (hlen : c.received.length = headerLength) (e : Exn) : complete f cd cr strategy s c = .error e ↔
      (madeOf f cd cr strategy nows (bytes ++ c.received)).outcome = .thrown e := by
  have happend := madeOf_append (h.waits_between (by simp [hp]) (by simp [hp])) [] c.received
  rw [List.append_nil, List.nil_append] at happend
  rw [happend, complete, hp]
  simp only [Connection.handleReadHeader, Connection.prepareBody, hec, HeaderBuffer.fill_full _ hlen]
  cases hsize : handleDetermineDataSize c.received with
  | none =>
    rw [madeOf, front_invalid hlen hsize]
    simp [onReceived]
  | some size =>
    by_cases hfits : size ≤ vectorMaxSize
    · rw [madeOf_header hlen hsize hfits]
      simp [resize, hfits]
    · rw [madeOf, front_large hlen hsize (by omega)]
      simp [resize, hfits]

theorem throws_body_iff (h : s.MadeOf f cd cr strategy failed nows bytes) (hp : s.pending = .readBody b)
    (hec : c.ec = none) (hlen : c.received.length = b.size) (e : Exn) : complete f cd cr strategy s c = .error e ↔
      (madeOf f cd cr strategy (nows ++ [c.now]) (bytes ++ c.received)).outcome = .thrown e := by
  obtain ⟨header, hheader, hsize, hfits, hdata, hwaits⟩ := h.waits_inside hp
  have hbody : fill s.connection.inboundData c.received = c.received := fill_full (by rw [hlen, hdata])
  rw [madeOf_append hwaits [c.now] c.received, complete, hp]
  dsimp only
  rw [madeOf, front_inside hheader hsize hfits hlen]
  simp only [Connection.handleReadData, hec, hbody]
  cases hdecode : decode f cd c.received with
  | error e' => simp
  | ok d =>
    cases hstrategy : strategy c.now d with
    | error e' => simp [hstrategy, onReceived]
    | ok data =>
      by_cases haccepted : Accepted f cr (⟨.ok, data⟩ : Response A)
      · simp [hstrategy, onReceived, haccepted, madeOf, front, headerLength]
      · simp [hstrategy, onReceived, haccepted]

/-- **A handler throws where the bytes say so.** -/
theorem throws_iff (h : s.MadeOf f cd cr strategy failed nows bytes) (hidle : s.pending ≠ .idle)
    (hfits : s.pending.Fits c) (hec : c.ec = none) (e : Exn) : complete f cd cr strategy s c = .error e ↔
      (madeOf f cd cr strategy (nows ++ s.pending.readings c) (bytes ++ c.received)).outcome = .thrown e := by
  have hlen := hfits.2 hec
  -- operations that are not reads receive nothing, and their handlers do not throw
  have hnone : s.pending.size = 0 → (∀ b, s.pending ≠ .readBody b) →
      (madeOf f cd cr strategy (nows ++ s.pending.readings c) (bytes ++ c.received)).outcome ≠ .thrown e := by
    intro hzero hbody
    have hreadings : s.pending.readings c = [] := by
      cases hp : s.pending with
      | readBody b => exact absurd hp (hbody b)
      | _ => rfl
    rw [List.length_eq_zero_iff.mp (hlen.trans hzero), hreadings, List.append_nil, List.append_nil,
      h.between hidle hbody]
    nofun
  cases hp : s.pending with
  | readHeader =>
    rw [hp] at hlen
    simpa [Pending.readings] using throws_header_iff h hp hec hlen e
  | readBody b =>
    rw [hp] at hlen
    exact throws_body_iff h hp hec hlen e
  | idle => exact absurd hp hidle
  | accept =>
    rw [← hp, complete_accept hp]
    exact iff_of_false nofun (hnone (by rw [hp]; rfl) (by simp [hp]))
  | handshake =>
    rw [← hp]
    exact iff_of_false (by simp [complete, hp, onInitialized, hec]) (hnone (by rw [hp]; rfl) (by simp [hp]))
  | write put =>
    rw [← hp]
    exact iff_of_false (by simp [complete, hp]) (hnone (by rw [hp]; rfl) (by simp [hp]))

end Session

/-! ## The server -/

namespace AsyncServer

def Event.Fails (i : Nat) : Event D A → Prop
  | .accepted j ec _ _ => j = i ∧ ec ≠ none
  | .completed j c => j = i ∧ c.ec ≠ none

def Failed (i : Nat) (es : List (Event D A)) : Prop := ∃ e ∈ es, Event.Fails i e

variable (f cd cr strategy) in
/-- What the sessions have made of their bytes. -/
structure Settled (es : List (Event D A)) (srv : AsyncServer D A) : Prop where
  wellFormed : srv.WellFormed
  madeOf : ∀ (i : Nat) (s : Session D A), srv.sessions[i]? = some s →
    ∃ nows, s.MadeOf f cd cr strategy (Failed i es) nows (received i es)
  absent : ∀ i, srv.sessions.length ≤ i → received i es = []

variable {secured : Bool} {srv srv' : AsyncServer D A} {es : List (Event D A)} {e : Event D A}

theorem failed_append (i : Nat) (h : Failed i es) (e : Event D A) : Failed i (es ++ [e]) := by
  obtain ⟨e', he', hfails⟩ := h
  exact ⟨e', List.mem_append_left _ he', hfails⟩

theorem failed_last (i : Nat) (es : List (Event D A)) (h : Event.Fails i e) : Failed i (es ++ [e]) :=
  ⟨e, by simp, h⟩

theorem settled_init (cdata : D) (response : Response A) : (init cdata response).Settled f cd cr strategy [] where
  wellFormed := wellFormed_init cdata response
  madeOf i s hs := by
    simp only [init, getElem?_doAccept] at hs
    split at hs
    · cases hs
      exact ⟨[], Session.madeOf_create _ _ _⟩
    · simp at hs
  absent i _ := rfl

theorem settled_accepted {i : Nat} {s : Session D A} (h : srv.Settled f cd cr strategy es)
    (hs : srv.sessions[i]? = some s) (hp : s.pending = .accept) (ec : ErrorCode) (cdata : D) (response : Response A) :
    (doAccept { srv with sessions := srv.sessions.set i { s with pending := acceptedPending secured ec } }
      cdata response).Settled f cd cr strategy (es ++ [.accepted i ec cdata response]) := by
  have hreceived : ∀ j, received j (es ++ [Event.accepted i ec cdata response]) = received j es := fun j => by
    rw [received_snoc, Event.received, List.append_nil]
  refine ⟨wellFormed_accepted (t := { s with pending := acceptedPending secured ec }) h.wellFormed hs hp rfl
    (acceptedPending_ne_accept ec) cdata response, fun j t ht => ?_, fun j hj => ?_⟩
  · rw [hreceived]
    simp only [getElem?_doAccept, List.length_set, getElem?_set_some hs] at ht
    split at ht
    · rename_i hj
      cases ht
      rw [h.absent j hj.ge]
      exact ⟨[], Session.madeOf_create _ _ _⟩
    split at ht
    · rename_i hj
      cases ht
      obtain ⟨nows, hmade⟩ := h.madeOf i s hs
      replace hmade := hmade.mono fun hfailed => failed_append i hfailed (.accepted i ec cdata response)
      rw [hj]
      cases ec with
      | none =>
        exact ⟨nows, hmade.goes_on (by simp [hp]) (by simp [hp]) (by cases secured <;> simp [acceptedPending])
          (by cases secured <;> simp [acceptedPending])⟩
      | some fault =>
        have hfails := hmade.fails (by simp [hp]) (failed_last i es (e := .accepted i (some fault) cdata response)
          ⟨rfl, by simp⟩) [] s.connection
        rw [List.append_nil] at hfails
        exact ⟨nows, hfails⟩
    · obtain ⟨nows, hmade⟩ := h.madeOf j t ht
      exact ⟨nows, hmade.mono fun hfailed => failed_append j hfailed _⟩
  · rw [hreceived]
    simp only [doAccept, List.length_append, List.length_set, List.length_singleton] at hj
    exact h.absent j (by omega)

theorem settled_completed {i : Nat} {s t : Session D A} {c : Completion} (h : srv.Settled f cd cr strategy es)
    (hs : srv.sessions[i]? = some s) (hp : s.pending ≠ .accept) (hfits : s.pending.Fits c)
    (ht : s.complete f cd cr strategy c = .ok t) :
    ({ srv with sessions := srv.sessions.set i t } : AsyncServer D A).Settled f cd cr strategy
      (es ++ [.completed i c]) := by
  refine ⟨wellFormed_completed h.wellFormed hs hp (Session.handled_complete hp ht), fun j u hu => ?_, fun j hj => ?_⟩
  · simp only [getElem?_set_some hs] at hu
    rw [received_snoc, Event.received]
    split at hu
    · rename_i hj
      cases hu
      obtain ⟨nows, hmade⟩ := h.madeOf i s hs
      obtain ⟨nows', hmade'⟩ := Session.madeOf_complete hmade hfits ht
      rw [hj, if_pos rfl]
      refine ⟨nows', hmade'.mono ?_⟩
      rintro (hfailed | hec)
      · exact failed_append i hfailed _
      · exact failed_last i es ⟨rfl, hec⟩
    · rename_i hj
      obtain ⟨nows, hmade⟩ := h.madeOf j u hu
      rw [if_neg (Ne.symm hj), List.append_nil]
      exact ⟨nows, hmade.mono fun hfailed => failed_append j hfailed _⟩
  · have hi := (List.getElem?_eq_some_iff.mp hs).1
    simp only [List.length_set] at hj
    rw [received_snoc, Event.received, if_neg (by omega), List.append_nil]
    exact h.absent j hj

theorem settled_step (h : srv.Settled f cd cr strategy es) (he : srv.Possible e)
    (hstep : Step f cd cr strategy secured srv e srv') : srv'.Settled f cd cr strategy (es ++ [e]) := by
  cases e with
  | accepted i ec cdata response =>
    obtain ⟨s, hs, hp⟩ := he
    cases (step_accepted hs hp ec cdata response).symm.trans hstep
    exact settled_accepted h hs hp ec cdata response
  | completed i c =>
    obtain ⟨s, hs, hp, -, hfits⟩ := he
    rw [Step, step_completed hs] at hstep
    obtain ⟨t, ht, heq⟩ := bind_eq_ok.mp hstep
    cases heq
    exact settled_completed h hs hp hfits ht

/-- **In every run the bytes settle the sessions.** -/
theorem settled_run {cdata : D} {response : Response A}
    (hrun : Runs (Step f cd cr strategy secured) (init cdata response) es srv)
    (hpossible : Always (Step f cd cr strategy secured) Possible (init cdata response) es) :
    srv.Settled f cd cr strategy es :=
  hrun.invariant_of_always (I := fun es srv => srv.Settled f cd cr strategy es) hpossible
    (settled_init cdata response) fun _ _ _ _ h he hstep => settled_step h he hstep

/-- **The bytes settle the sessions**, whatever the clients send, in whatever pieces and order it arrives: in every
run the requests that a session has read and the replies that it has started to write are what is made of the bytes
that it has received, with one reading of the clock for each request. While it goes on, nothing is left of the bytes,
or the header of the body that it waits for. While none of its operations has failed, the session has ended exactly
where the bytes end it, and the next completion without an error takes the server down exactly where the bytes that it
brings make a handler throw. -/
theorem bytes_settle_sessions (f : Filter) (cd : Codec D) (cr : Codec (Response A))
    (strategy : Int → D → Except Exn A) (secured : Bool) (cdata : D) (response : Response A) (es : List (Event D A))
    (srv : AsyncServer D A) (hrun : Runs (Step f cd cr strategy secured) (init cdata response) es srv)
    (hpossible : Always (Step f cd cr strategy secured) Possible (init cdata response) es) (i : Nat)
    (s : Session D A) (hs : srv.sessions[i]? = some s) : ∃ nows,
      (madeOf f cd cr strategy nows (received i es)).requests = s.requests ∧
      (madeOf f cd cr strategy nows (received i es)).replies = s.replies ∧ s.requests.length = nows.length ∧
      (s.pending ≠ .idle → (∀ b, s.pending ≠ .readBody b) →
        (madeOf f cd cr strategy nows (received i es)).outcome = .waiting []) ∧
      (∀ b, s.pending = .readBody b → ∃ header, header.length = headerLength ∧
        handleDetermineDataSize header = some b.size ∧
        (madeOf f cd cr strategy nows (received i es)).outcome = .waiting header) ∧
      (¬ Failed i es → (s.pending = .idle ↔ (madeOf f cd cr strategy nows (received i es)).outcome = .ended) ∧
        ∀ e, (madeOf f cd cr strategy nows (received i es)).outcome ≠ .thrown e) ∧
      ∀ c e, srv.Possible (.completed i c) → c.ec = none →
        (srv.step f cd cr strategy secured (.completed i c) = .error e ↔
          (madeOf f cd cr strategy (nows ++ s.pending.readings c) (received i es ++ c.received)).outcome = .thrown e) := by
  have hsettled := settled_run hrun hpossible
  obtain ⟨nows, hmade⟩ := hsettled.madeOf i s hs
  refine ⟨nows, hmade.requests, hmade.replies, hmade.used, hmade.between, fun b hb => ?_, fun hfailed => ?_,
    fun c e hc hec => ?_⟩
  · obtain ⟨header, hheader, hsize, -, -, houtcome⟩ := hmade.inside b hb
    exact ⟨header, hheader, hsize, houtcome⟩
  · by_cases hidle : s.pending = .idle
    · have hended := (hmade.ended hidle).resolve_right hfailed
      exact ⟨iff_of_true hidle hended, by simp [hended]⟩
    · obtain ⟨rest, hwaits⟩ := hmade.waits hidle
      exact ⟨iff_of_false hidle (by simp [hwaits.outcome]), by simp [hwaits.outcome]⟩
  · obtain ⟨s', hs', -, hidle, hfits⟩ := hc
    rw [hs] at hs'
    cases hs'
    rw [step_completed hs, ← Session.throws_iff hmade hidle hfits hec]
    cases s.complete f cd cr strategy c <;> simp

end AsyncServer

end Bytes

/-! ### A client that sends no header -/

section Calculator
open Calculator AsyncServer

def requestAndNoise : List (Event ClientData ServerData) :=
  [.accepted 0 none blankRequest blankResponse, .accepted 1 none blankRequest blankResponse,
    .completed 0 ⟨sumFrame.take 8, none, 0⟩, .completed 1 ⟨noise, none, 1⟩, .completed 0 ⟨sumFrame.drop 8, none, 2⟩]

/-- The session of the client that sends noise has ended without a request, and the server is up. -/
theorem bytes_settle_sessions_noise :
    ∃ srv s nows, Runs (CalculatorStep false) (.init blankRequest blankResponse) requestAndNoise srv ∧
      srv.sessions[1]? = some s ∧
      (madeOf defaultFilter (requestCodec plainArchive) (responseCodec plainArchive) serverAction nows noise).requests =
        s.requests ∧ s.requests.length = nows.length ∧ s.pending = .idle := by
  have hend : ((play (guarded nextUp Possible) (.init blankRequest blankResponse) requestAndNoise).bind
      fun srv => srv.sessions[1]?).isSome = true := by decide +kernel
  obtain ⟨s, hs⟩ := Option.isSome_iff_exists.mp hend
  obtain ⟨srv, hplay, hs⟩ := Option.bind_eq_some_iff.mp hs
  obtain ⟨hrun, hpossible⟩ := runs_of_play_guarded hplay
  rw [stepOf_nextUp] at hrun hpossible
  obtain ⟨nows, hrequests, -, hnows, -, -, hidle, -⟩ :=
    bytes_settle_sessions _ _ _ _ false blankRequest blankResponse requestAndNoise srv hrun hpossible 1 s hs
  have hnoise : received 1 requestAndNoise = noise := rfl
  rw [hnoise] at hrequests hidle
  refine ⟨srv, s, nows, hrun, hs, hrequests, hnows, (hidle ?_).1.mpr ?_⟩
  · rintro ⟨e, he, hfails⟩
    simp only [requestAndNoise, List.mem_cons, List.not_mem_nil, or_false] at he
    rcases he with rfl | rfl | rfl | rfl | rfl
    all_goals simp [Event.Fails] at hfails
  · rw [madeOf, show front noise = .invalid by decide +kernel]

end Calculator

end TCPClientServer.Server
