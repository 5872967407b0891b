import TCPClientServer.Calculator.Scraping
import TCPClientServer.Exchange.Retry
import TCPClientServer.Server.Session

/-!
# The exchange of one datum between client and server

A pass of the calculator's client against a session of its server, on a connection without faults. The
session answers a datum with finite operands by a response whose result need not be finite, and the client
cannot read one that is not: the exception ends it with the datum still at the front of its queue.

* `serve` : what a session sends for the bytes a client has put on the socket;
* `Answered` : the client gets the answer and pops the datum;
* `answered_of_finite`, `not_answered_of_nonfinite`;
* `no_poison_request` : when a scraped datum is answered.
-/

namespace TCPClientServer.Exchange
open TCPClientServer.Basis TCPClientServer.Io TCPClientServer.Server TCPClientServer.Client
open TCPClientServer.Calculator

section Serve
variable {D A : Type} (f : Filter) (cd : Codec D) (cr : Codec (Response A)) (strategy : Int → D → Except Exn A)

/-- A session that waits for a request receives what was put on the socket, and its answer is sent. -/
def serve (s : Session D A) (put : Bytes) (now : Int) : Except Exn (Session D A × Bytes) := do
  let s ← s.complete f cd cr strategy ⟨put.take headerLength, none, now⟩
  match s.pending with
  | .readBody b =>
    let s ← s.complete f cd cr strategy ⟨(put.drop headerLength).take b.size, none, now⟩
    match s.pending with
    | .write frame => return (s, frame)
    | _ => return (s, [])
  | _ => return (s, [])

variable {f cd cr strategy} {s : Session D A} {now : Int} {d : D} {data : A}

variable (cr strategy now) in
/-- **What a session does with the frame of a request.** -/
theorem serve_frame (hp : s.pending = .readHeader) (ha : Accepted f cd d) (hd : Decodes f cd d) :
    ∃ t : Session D A, serve f cd cr strategy s (frame f cd d) now = (strategy now d >>= fun data =>
      let t := Session.doReply f cr { t with response := ⟨.ok, data⟩ }
      match t.pending with
      | .write frame => .ok (t, frame)
      | _ => .ok (t, [])) := by
  obtain ⟨connection, hheader, hlen⟩ := Session.complete_header cr strategy now hp ha
  have htake : (frame f cd d).take headerLength = formatHeader (encode f cd d).length := by
    rw [frame, ← length_formatHeader ha, List.take_left]
  have hdrop : ((frame f cd d).drop headerLength).take (encode f cd d).length = encode f cd d := by
    rw [frame, ← length_formatHeader ha, List.drop_left, List.take_length]
  have hbody := Session.complete_body cr strategy now
    (s := { s with connection, pending := .readBody ⟨(encode f cd d).length, headerLength⟩ }) rfl hlen hd
  refine ⟨{ s with
    connection := { connection with inboundData := encode f cd d }, cdata := d,
    pending := .readBody ⟨(encode f cd d).length, headerLength⟩, requests := s.requests ++ [d] }, ?_⟩
  rw [serve, htake, hheader, ok_bind]
  simp only [hdrop, hbody]
  cases strategy now d with
  | error e => rfl
  | ok data => rfl

/-- A reply that a frame holds is sent as one. -/
theorem serve_replies (hp : s.pending = .readHeader) (ha : Accepted f cd d) (hd : Decodes f cd d)
    (hdata : strategy now d = .ok data) (hr : Accepted f cr ⟨.ok, data⟩) :
    ∃ t, serve f cd cr strategy s (frame f cd d) now = .ok (t, frame f cr ⟨.ok, data⟩) := by
  obtain ⟨t, hserve⟩ := serve_frame cr strategy now hp ha hd
  obtain ⟨connection, hreply⟩ := Session.doReply_accepted (s := { t with response := ⟨.ok, data⟩ }) hr
  rw [hserve, hdata, ok_bind]
  simp only [hreply]
  exact ⟨_, rfl⟩

theorem serve_silent (hp : s.pending = .readHeader) (ha : Accepted f cd d) (hd : Decodes f cd d)
    (hdata : strategy now d = .ok data) (hr : ¬ Accepted f cr ⟨.ok, data⟩) :
    ∃ t, serve f cd cr strategy s (frame f cd d) now = .ok (t, []) := by
  obtain ⟨t, hserve⟩ := serve_frame cr strategy now hp ha hd
  obtain ⟨connection, hreply⟩ := Session.doReply_refused (s := { t with response := ⟨.ok, data⟩ }) hr
  rw [hserve, hdata, ok_bind]
  simp only [hreply]
  exact ⟨_, rfl⟩

end Serve

section Exchanged
variable (f : Filter) (ar : TextArchive) (keepAlive : Bool) (l : Listener Padding ClientData ServerData)
  (s : Session ClientData ServerData) (d : ClientData) (now : Int)

def faultless (fresh : Response ServerData) (deliveries : List Bytes) (arriving : List ClientData)
    (scraperGood : Bool) : Round ClientData ServerData :=
  ⟨⟨none, .eof⟩, fresh, ⟨deliveries, .eof⟩, arriving, scraperGood⟩

/-- The session answers the datum, and however the answer is delivered the client takes it for the datum's
and pops the datum. -/
def Answered : Prop :=
  ∃ t answer, serve f (requestCodec ar) (responseCodec ar) serverAction s
      (l.connection.write f (requestCodec ar) d ⟨none, .eof⟩).put now = .ok (t, answer) ∧
    ∀ fresh deliveries arriving scraperGood, deliveries.flatten = answer →
      ∃ p resp, pass f (requestCodec ar) (responseCodec ar) ClientActions keepAlive l
          (faultless fresh deliveries arriving scraperGood) = .ok p ∧
        p.responded = some resp ∧ Answers d resp ∧ p.listener.queue = l.queue.tail ++ arriving

variable {f ar keepAlive l s d now} {q : List ClientData} {resp : Response ServerData}

theorem send_faultless (ha : Accepted f (requestCodec ar) d) (conn : Connection) (fresh : Response ServerData)
    (deliveries : List Bytes) :
    send f (requestCodec ar) (responseCodec ar) conn d ⟨none, .eof⟩ fresh ⟨deliveries, .eof⟩ =
      ((staged f (requestCodec ar) conn d).read f (responseCodec ar) fresh ⟨deliveries, .eof⟩ >>= fun r =>
        .ok ⟨r.connection, r.value, r.ec, (frame f (requestCodec ar) d).length, some r.length⟩) :=
  send_written ⟨ha, by simp [Sink.Takes]⟩

theorem put_of_accepted (ha : Accepted f (requestCodec ar) d) :
    (l.connection.write f (requestCodec ar) d ⟨none, .eof⟩).put = frame f (requestCodec ar) d := by
  rw [write_written ⟨ha, by simp [Sink.Takes]⟩]

/-- The client takes the answer when a frame of it arrives that decodes. -/
theorem pass_answer (keepAlive : Bool) (hq : l.queue = d :: q) (ha : Accepted f (requestCodec ar) d)
    (hr : Accepted f (responseCodec ar) resp) (hd : Decodes f (responseCodec ar) resp)
    (hstatus : resp.transmissionStatus = .ok) (hanswers : Answers d resp) (fresh : Response ServerData)
    (deliveries : List Bytes) (arriving : List ClientData) (scraperGood : Bool)
    (hdel : deliveries.flatten = frame f (responseCodec ar) resp) :
    ∃ p, pass f (requestCodec ar) (responseCodec ar) ClientActions keepAlive l
        (faultless fresh deliveries arriving scraperGood) = .ok p ∧
      p.responded = some resp ∧ p.listener.queue = l.queue.tail ++ arriving := by
  have hbytes : (faultless fresh deliveries arriving scraperGood).source.bytes =
      frame f (responseCodec ar) resp ++ [] := by rw [List.append_nil]; exact hdel
  obtain ⟨r', hread, hec, hvalue, -⟩ :=
    Connection.read_frame (staged f (requestCodec ar) l.connection d) fresh hr hd hbytes
  have hsend := send_faultless ha l.connection fresh deliveries
  rw [show (⟨deliveries, .eof⟩ : Source) = (faultless fresh deliveries arriving scraperGood).source from rfl, hread,
    ok_bind, hec, hvalue] at hsend
  rw [pass_of_send (r := faultless fresh deliveries arriving scraperGood) hq hsend, afterSend]
  simp only [react_respond.mpr ⟨rfl, hstatus⟩, ClientActions_response_of_answers hanswers]
  exact ⟨_, rfl, rfl, rfl⟩

/-- **An answer with a finite result is taken.** -/
theorem answered_of_finite {data : ServerData} (hq : l.queue = d :: q) (hp : s.pending = .readHeader)
    (ha : Accepted f (requestCodec ar) d) (hd : Decodes f (requestCodec ar) d)
    (hdata : serverAction now d = .ok data) (hr : Accepted f (responseCodec ar) ⟨.ok, data⟩)
    (hdr : Decodes f (responseCodec ar) ⟨.ok, data⟩) : Answered f ar keepAlive l s d now := by
  obtain ⟨t, hserve⟩ := serve_replies hp ha hd hdata hr
  rw [← put_of_accepted (l := l) ha] at hserve
  refine ⟨t, _, hserve, fun fresh deliveries arriving scraperGood hdel => ?_⟩
  obtain ⟨p, hpass, hresponded, hqueue⟩ := pass_answer keepAlive hq ha hr hdr rfl (serverAction_answers hdata .ok) fresh
    deliveries arriving scraperGood hdel
  exact ⟨p, _, hpass, hresponded, serverAction_answers hdata .ok, hqueue⟩

/-- A datum whose answer the client does not get past is not answered. -/
theorem not_answered_of_throws
    (h : ∀ t answer, serve f (requestCodec ar) (responseCodec ar) serverAction s
        (l.connection.write f (requestCodec ar) d ⟨none, .eof⟩).put now = .ok (t, answer) →
      ∃ e, pass f (requestCodec ar) (responseCodec ar) ClientActions keepAlive l
        (faultless blankResponse [answer] [] true) = .error e) : ¬ Answered f ar keepAlive l s d now := by
  rintro ⟨t, answer, hserve, hanswer⟩
  obtain ⟨p, resp, hpass, -⟩ := hanswer blankResponse [answer] [] true (by simp)
  obtain ⟨e, he⟩ := h t answer hserve
  rw [hpass] at he
  cases he

theorem not_answered_of_refused (hq : l.queue = d :: q) (ha : ¬ Accepted f (requestCodec ar) d) :
    ¬ Answered f ar keepAlive l s d now := by
  refine not_answered_of_throws fun t answer _ => ?_
  obtain ⟨sent, hsend, hec⟩ := send_refused (responseCodec ar) l.connection blankResponse ⟨[answer], .eof⟩
    (k := ⟨none, .eof⟩) ha
  rw [pass_of_send (r := faultless blankResponse [answer] [] true) hq hsend, afterSend, hec]
  exact ⟨_, rfl⟩

theorem not_answered_of_silent {data : ServerData} (hq : l.queue = d :: q) (hp : s.pending = .readHeader)
    (ha : Accepted f (requestCodec ar) d) (hd : Decodes f (requestCodec ar) d)
    (hdata : serverAction now d = .ok data) (hr : ¬ Accepted f (responseCodec ar) ⟨.ok, data⟩) :
    ¬ Answered f ar keepAlive l s d now := by
  refine not_answered_of_throws fun t answer hanswer => ?_
  obtain ⟨t', hserve⟩ := serve_silent hp ha hd hdata hr
  rw [put_of_accepted ha, hserve] at hanswer
  cases hanswer
  obtain ⟨r', hread, hec, -⟩ := Connection.read_header_fault (f := f) (c := responseCodec ar)
    (staged f (requestCodec ar) l.connection d) (t := blankResponse) (s := ⟨[[]], .eof⟩) (by decide)
  have hsend := send_faultless ha l.connection blankResponse [[]]
  rw [hread, ok_bind, hec] at hsend
  rw [pass_of_send (r := faultless blankResponse [[]] [] true) hq hsend, afterSend]
  exact ⟨_, rfl⟩

/-- **An answer that does not decode ends the client.** -/
theorem not_answered_of_undecodable {data : ServerData} {e : Exn} (hq : l.queue = d :: q)
    (hp : s.pending = .readHeader) (ha : Accepted f (requestCodec ar) d) (hd : Decodes f (requestCodec ar) d)
    (hdata : serverAction now d = .ok data) (hr : Accepted f (responseCodec ar) ⟨.ok, data⟩)
    (hdr : decode f (responseCodec ar) (encode f (responseCodec ar) ⟨.ok, data⟩) = .error e) :
    ¬ Answered f ar keepAlive l s d now := by
  refine not_answered_of_throws fun t answer hanswer => ?_
  obtain ⟨t', hserve⟩ := serve_replies hp ha hd hdata hr
  rw [put_of_accepted ha, hserve] at hanswer
  cases hanswer
  have hbytes : (Source.mk [frame f (responseCodec ar) ⟨.ok, data⟩] .eof).bytes =
      frame f (responseCodec ar) ⟨.ok, data⟩ ++ [] := by simp [Source.bytes]
  have hsend := send_faultless ha l.connection blankResponse [frame f (responseCodec ar) ⟨.ok, data⟩]
  rw [Connection.read_frame_throws _ _ hr hdr hbytes, error_bind] at hsend
  exact ⟨_, pass_of_throw hq hsend⟩

end Exchanged

/-! ## Requests with finite operands -/

section Poison
variable {z : Zlib} {compressed keepAlive : Bool} {ar : TextArchive}
  {l : Listener Padding ClientData ServerData} {s : Session ClientData ServerData} {d : ClientData} {now : Int}
  {queue : List ClientData} {p q : ℚ}

/-- **A result that is no finite value is not answered**: its frame does not decode, or there is none. -/
theorem not_answered_of_nonfinite (hz : compressed = true → z.Lawful) (har : ar.Lawful) {data : ServerData}
    (hqueue : l.queue = d :: queue) (hs : s.pending = .readHeader)
    (ha : Accepted (createFilter z compressed) (requestCodec ar) d)
    (hd : Decodes (createFilter z compressed) (requestCodec ar) d) (hdata : serverAction now d = .ok data)
    (h : data.result.isFinite = false) : ¬ Answered (createFilter z compressed) ar keepAlive l s d now := by
  obtain ⟨e, he⟩ := TextArchive.codec_load_throws har (response_throws har (r := ⟨.ok, data⟩) h)
  by_cases hr : Accepted (createFilter z compressed) (responseCodec ar) ⟨.ok, data⟩
  · exact not_answered_of_undecodable hqueue hs ha hd hdata hr
      (decode_throws (createFilter_inverts hz (TextArchive.codec_save_ne_nil har)) he)
  · exact not_answered_of_silent hqueue hs ha hd hdata hr

/-- **No poison request**: a datum that was scraped and has finite operands is answered exactly when its
frame and the frame of its answer can be formed, its result exists in exact arithmetic, so it is no
division by zero, and this result does not overflow. -/
theorem no_poison_request (hz : compressed = true → z.Lawful) (har : ar.Lawful) {clientId : Bytes} {u : Locals}
    {is is' : IStream} (hget : getDatum clientId u is = (.ok d, is')) (h1 : d.operand1 = .finite p)
    (h2 : d.operand2 = .finite q) (hqueue : l.queue = d :: queue) (hs : s.pending = .readHeader) :
    Answered (createFilter z compressed) ar keepAlive l s d now ↔
      Accepted (createFilter z compressed) (requestCodec ar) d ∧
      ∃ x, d.operation.exactResult p q = some x ∧ |x| < Double.overflowThreshold ∧
        Accepted (createFilter z compressed) (responseCodec ar)
          ⟨.ok, { timestamp := now, id := d.id, result := .ofRat x, padding := d.padding }⟩ := by
  by_cases ha : Accepted (createFilter z compressed) (requestCodec ar) d
  swap
  · exact iff_of_false (not_answered_of_refused hqueue ha) fun h => ha h.1
  obtain ⟨buffer, hparse⟩ := getDatum_parsed hget
  obtain ⟨hproper1, hproper2⟩ := parseDatum_proper hparse
  have hd : Decodes (createFilter z compressed) (requestCodec ar) d :=
    request_decodes hz har hproper1 (by rw [h1]; rfl) hproper2 (by rw [h2]; rfl)
  obtain ⟨a, hanswer⟩ := (Operation.answer_ok_iff d.operation (.finite p) (.finite q)).mpr (parseDatum_valid hparse)
  have hdata : serverAction now d = .ok { timestamp := now, id := d.id, result := a, padding := d.padding } := by
    simp [serverAction, h1, h2, hanswer]
  have hfinite := Operation.answer_isFinite_iff hanswer
  cases hfin : a.isFinite with
  | false =>
    refine iff_of_false (not_answered_of_nonfinite hz har hqueue hs ha hd hdata hfin) ?_
    rintro ⟨-, x, hx, hlt, -⟩
    rw [hfinite.mpr ⟨x, hx, hlt⟩] at hfin
    cases hfin
  | true =>
    obtain ⟨x, hx, hlt⟩ := hfinite.mp hfin
    obtain rfl := Operation.answer_eq_ofRat hanswer hx
    by_cases hr : Accepted (createFilter z compressed) (responseCodec ar) ⟨.ok, now, d.id, .ofRat x, d.padding⟩
    · have hdr := response_decodes hz har (r := ⟨.ok, now, d.id, .ofRat x, d.padding⟩) (Double.proper_ofRat x) hfin
      exact iff_of_true (answered_of_finite hqueue hs ha hd hdata hr hdr) ⟨ha, x, hx, hlt, hr⟩
    · refine iff_of_false (not_answered_of_silent hqueue hs ha hd hdata hr) ?_
      rintro ⟨-, x', hx', -, hr'⟩
      obtain rfl : x = x' := Option.some_inj.mp (hx.symm.trans hx')
      exact hr hr'

end Poison

/-! ## A sum and a division -/

def scraped (operation : Operation) (q : ℚ) : ClientData :=
  ⟨[ch 'a'], .literal 1, .finite 2, operation, .finite q, .replicate 0⟩

def scrapedListener (d : ClientData) : Listener Padding ClientData ServerData := ⟨.fresh, [d], .replicate 0, []⟩

def readySession : Session ClientData ServerData :=
  (Session.create 0 (scraped .nop 0) blankResponse).doReceive

theorem getDatum_sum : getDatum [ch 'a'] .zero (.ofText ("1 2 + 3\n".toList.map ch)) =
    (.ok (scraped .add 3), .ofText []) := by decide +kernel

theorem getDatum_division : getDatum [ch 'a'] .zero (.ofText ("1 2 / 0\n".toList.map ch)) =
    (.ok (scraped .divide 0), .ofText []) := by decide +kernel

theorem no_poison_request_sum :
    Answered (createFilter ⟨id, .ok⟩ false) plainArchive false (scrapedListener (scraped .add 3)) readySession
      (scraped .add 3) 0 :=
  (no_poison_request (by simp) plainArchive_lawful getDatum_sum rfl rfl rfl rfl).mpr
    ⟨by decide +kernel, 5, by decide +kernel, by decide +kernel, by decide +kernel⟩

theorem poison_request :
    ¬ ∀ (clientId : Bytes) (u : Locals) (is is' : IStream) (d : ClientData) (p q : ℚ),
      getDatum clientId u is = (.ok d, is') → d.operand1 = .finite p → d.operand2 = .finite q →
      Answered (createFilter ⟨id, .ok⟩ false) plainArchive false (scrapedListener d) readySession d 0 := by
  intro h
  have hdata : serverAction 0 (scraped .divide 0) = .ok ⟨0, .literal 1, .posInf, .replicate 0⟩ := by
    decide +kernel
  have hnot : ¬ Answered (createFilter ⟨id, .ok⟩ false) plainArchive false (scrapedListener (scraped .divide 0))
      readySession (scraped .divide 0) 0 :=
    not_answered_of_nonfinite (by simp) plainArchive_lawful rfl rfl (by decide +kernel)
      (request_decodes (by simp) plainArchive_lawful ⟨2, by decide +kernel⟩ rfl ⟨0, by decide +kernel⟩ rfl) hdata rfl
  exact hnot (h _ _ _ _ _ _ _ getDatum_division rfl rfl)

end TCPClientServer.Exchange
