import TCPClientServer.Calculator.Ending
import TCPClientServer.Calculator.Stopping

/-!
# What is scraped of a text

The lines of any text, NULs and a last line without a newline included. Whatever the client's thread does
meanwhile, the scraper pushes the data of these lines in their order, up to and including the first line that
does not fit the buffer.

* `readable` : the lines that are read; `dataIn` : the data in lines;
* `getline_ofText` : a `getline` takes one line;
* `Scraping` : what has been pushed and what the scraper holds are the data of the lines read; `scraping_run`;
* `scraped_in_every_interleaving`.
-/

namespace TCPClientServer.Calculator
open TCPClientServer.Basis TCPClientServer.Client

section Text
variable (clientId : Bytes)

def lineBuffer (l : Bytes) : Bytes := cstr (l.take (maxInputLength - 1))

def datumIn (u : Locals) (buffer : Bytes) : List ClientData := (parseDatum u clientId buffer).toOption.toList

/-- The data in lines; `us i` is the memory in which line `i` is parsed. -/
def dataIn (us : Nat → Locals) : List Bytes → List ClientData
  | [] => []
  | l :: ls => datumIn clientId (us 0) (lineBuffer l) ++ dataIn (fun i => us (i + 1)) ls

/-- Up to and including the first line that does not fit the buffer. -/
def readableLines : List Bytes → List Bytes
  | [] => []
  | l :: ls => l :: if l.length < maxInputLength then readableLines ls else []

/-- The lines that are read of a text; the last of them may be empty. -/
def readable (t : Bytes) : List Bytes := readableLines (t.splitOn newline)

variable {clientId} {u : Locals} {us vs : Nat → Locals} {ls : List Bytes}

theorem datumIn_nil : datumIn clientId u [] = [] := rfl

theorem datumIn_of_ok {buffer : Bytes} {d : ClientData} (h : parseDatum u clientId buffer = .ok d) :
    datumIn clientId u buffer = [d] := by
  rw [datumIn, h]
  rfl

theorem datumIn_eq_nil_iff {buffer : Bytes} :
    datumIn clientId u buffer = [] ↔ ∀ d, parseDatum u clientId buffer ≠ .ok d := by
  cases h : parseDatum u clientId buffer <;> simp [datumIn, h, Except.toOption]

theorem dataIn_congr (us vs : Nat → Locals) (h : ∀ i < ls.length, us i = vs i) :
    dataIn clientId us ls = dataIn clientId vs ls := by
  induction ls generalizing us vs with
  | nil => rfl
  | cons l ls ih =>
    have hrest := ih (fun i => us (i + 1)) (fun i => vs (i + 1)) fun i hi => h (i + 1) (by rw [List.length_cons]; omega)
    rw [dataIn, dataIn, h 0 (by simp), hrest]

theorem dataIn_append (us : Nat → Locals) (ls ls' : List Bytes) : dataIn clientId us (ls ++ ls') =
    dataIn clientId us ls ++ dataIn clientId (fun i => us (i + ls.length)) ls' := by
  induction ls generalizing us with
  | nil => rfl
  | cons l ls ih =>
    rw [List.cons_append, dataIn, dataIn, ih, List.append_assoc]
    simp only [List.length_cons, Nat.add_assoc]

theorem dataIn_mono (us : Nat → Locals) {ls ls' : List Bytes} (h : ls <+: ls') :
    dataIn clientId us ls <+: dataIn clientId us ls' := by
  obtain ⟨later, rfl⟩ := h
  rw [dataIn_append]
  exact List.prefix_append _ _

variable (clientId) in
/-- One more line, parsed in this memory. -/
theorem exists_dataIn_concat (us : Nat → Locals) (ls : List Bytes) (l : Bytes) (u : Locals) :
    ∃ vs, dataIn clientId vs (ls ++ [l]) = dataIn clientId us ls ++ datumIn clientId u (lineBuffer l) := by
  refine ⟨fun i => if i < ls.length then us i else u, ?_⟩
  have hbefore : dataIn clientId (fun i => if i < ls.length then us i else u) ls = dataIn clientId us ls :=
    dataIn_congr _ _ fun i hi => if_pos hi
  rw [dataIn_append, hbefore]
  simp [dataIn]

/-- All lines of a text are read if they fit, and the empty one behind the last newline. -/
theorem readable_text (h : ∀ l ∈ ls, Clean l ∧ l.length < maxInputLength) : readable (text ls) = ls ++ [[]] := by
  induction ls with
  | nil => rfl
  | cons l ls ih =>
    obtain ⟨hclean, hlen⟩ := h l List.mem_cons_self
    have hls := ih fun l hl => h l (List.mem_cons_of_mem _ hl)
    rw [readable] at hls
    rw [readable, text_cons, List.splitOn_append_cons_self_of_not_mem hclean.newline, readableLines, if_pos hlen, hls,
      List.cons_append]

theorem lineBuffer_eq_self {l : Bytes} (hl : Clean l) (hlen : l.length < maxInputLength) : lineBuffer l = l := by
  rw [lineBuffer, List.take_of_length_le (by omega), cstr_eq_self hl.nul]

end Text

/-! ## One line -/

theorem eq_ofText_of_good {is : IStream} (h : is.good = true) : is = .ofText is.unread := by
  obtain ⟨t, e, f, b⟩ := is
  rw [IStream.good_mk] at h
  cases e <;> cases f <;> cases b <;> simp_all [IStream.ofText]

/-- **A `getline` takes one line**, or as much of it as the buffer does. The stream stays good when the line fits
and a newline ends it; else no line is read after it. -/
theorem getline_ofText (t : Bytes) : ∃ l ls, t.splitOn newline = l :: ls ∧
    cstr ((IStream.ofText t).getline maxInputLength).1 = lineBuffer l ∧
    ((IStream.ofText t).getline maxInputLength).2.bad = false ∧
    (((IStream.ofText t).getline maxInputLength).2.good = true → l.length < maxInputLength ∧
      ((IStream.ofText t).getline maxInputLength).2.unread.splitOn newline = ls) ∧
    (((IStream.ofText t).getline maxInputLength).2.good = false → l.length < maxInputLength → ls = []) := by
  have hfits : ∀ l : Bytes, l.length < maxInputLength → lineBuffer l = cstr l := fun l hl => by
    rw [lineBuffer, List.take_of_length_le (by omega)]
  rcases exists_line t with hl | ⟨l, u, rfl, hl⟩
  · refine ⟨t, [], List.splitOn_eq_singleton hl, ?_⟩
    by_cases hlen : t.length < maxInputLength
    · by_cases hnil : t = []
      · subst hnil
        exact ⟨rfl, rfl, nofun, fun _ _ => rfl⟩
      · rw [IStream.getline_last hl hnil hlen]
        exact ⟨(hfits t hlen).symm, rfl, nofun, fun _ _ => rfl⟩
    · have hlong := IStream.getline_long (t := []) hl (by decide) (not_lt.mp hlen) (by simp)
      rw [List.append_nil] at hlong
      rw [hlong]
      exact ⟨rfl, rfl, nofun, fun _ h => absurd h hlen⟩
  · refine ⟨l, u.splitOn newline, List.splitOn_append_cons_self_of_not_mem hl u, ?_⟩
    by_cases hlen : l.length < maxInputLength
    · rw [IStream.getline_line hl hlen]
      exact ⟨(hfits l hlen).symm, rfl, fun _ => ⟨hlen, rfl⟩, nofun⟩
    · rw [IStream.getline_long hl (by decide) (not_lt.mp hlen) (by simp)]
      exact ⟨rfl, rfl, nofun, fun _ h => absurd h hlen⟩

/-! ## The scraper among the client's steps -/

section Scraping
variable (clientId : Bytes)

def ScraperPc.inHand : ScraperPc → List ClientData
  | loopTest | stopped => []
  | reading u buffer | parsing u buffer => datumIn clientId u buffer
  | pushing d => [d]

theorem ScraperPc.Quiet.inHand {pc : ScraperPc} (h : pc.Quiet clientId) : pc.inHand clientId = [] := by
  cases pc with
  | loopTest => rfl
  | stopped => rfl
  | pushing d => exact h.elim
  | reading u buffer | parsing u buffer =>
    by_cases hnil : buffer = []
    · subst hnil
      exact datumIn_nil
    · exact datumIn_eq_nil_iff.mpr (h hnil)

namespace Threads

/-- Lines of the text have been read, all that are ever read when the stream is no longer good, and what they
hold has been pushed but for what the scraper has in hand. -/
structure Scraping (t : Bytes) (s : Threads) : Prop where
  bad : s.stream.bad = false
  lines : ∃ before us, (s.stream.good = true → readable t = before ++ readable s.stream.unread) ∧
    (s.stream.good = false → readable t = before) ∧
    dataIn clientId us before = s.client.pushed ++ s.scraper.inHand clientId

variable {clientId} {keepAlive : Bool} {t : Bytes} {s s' : Threads} {u : Locals} {a : Action}

/-- Where no line is read, only what is in hand can change. -/
theorem Scraping.elsewhere (h : Scraping clientId t s) (hstream : s'.stream = s.stream)
    (hpushed : s'.client.pushed ++ s'.scraper.inHand clientId = s.client.pushed ++ s.scraper.inHand clientId) :
    Scraping clientId t s' where
  bad := by
    rw [hstream]
    exact h.bad
  lines := by
    rw [hstream, hpushed]
    exact h.lines

theorem scraping_line {v : Locals} (h : Scraping clientId t s) (hpc : s.scraper = .reading v [])
    (hgood : s.stream.good = true) : Scraping clientId t { s with
      stream := (s.stream.getline maxInputLength).2,
      scraper := .reading v (cstr (s.stream.getline maxInputLength).1) } := by
  obtain ⟨before, us, hread, -, hdata⟩ := h.lines
  obtain ⟨l, ls, hsplit, hbuffer, hbad, hmore, hlast⟩ := getline_ofText s.stream.unread
  rw [← eq_ofText_of_good hgood] at hbuffer hbad hmore hlast
  obtain ⟨vs, hvs⟩ := exists_dataIn_concat clientId us before l v
  have hfirst := hread hgood
  rw [readable, readable, hsplit, readableLines] at hfirst
  refine ⟨hbad, before ++ [l], vs, fun hgood' => ?_, fun hnot => ?_, ?_⟩
  · obtain ⟨hfits, hrest⟩ := hmore hgood'
    rw [readable, hfirst, if_pos hfits, readable, hrest, List.append_assoc, List.singleton_append]
  · rw [readable, hfirst]
    split
    · rename_i hfits
      rw [hlast hnot hfits, readableLines]
    · rfl
  · rw [hvs, hdata, hpc, hbuffer]
    simp [ScraperPc.inHand, datumIn_nil]

/-- **A step of the scraper.** -/
theorem scraping_scrapes (h : Scraping clientId t s) (hscrapes : Scrapes clientId s u s') :
    Scraping clientId t s' := by
  cases hscrapes with
  | start hpc hok => exact h.elsewhere rfl (by simp [hpc, ScraperPc.inHand, datumIn_nil])
  | stop hpc hok => exact h.elsewhere rfl (by simp [hpc, ScraperPc.inHand])
  | line v hpc hgood => exact scraping_line h hpc hgood
  | read v buffer hpc hend => exact h.elsewhere rfl (by simp [hpc, ScraperPc.inHand])
  | corrupted v buffer hpc hbad => simp [h.bad] at hbad
  | skip v buffer hpc hbad hnone =>
    have hquiet : (ScraperPc.parsing v buffer).Quiet clientId := fun hne d hd => by
      rw [hnone hne] at hd
      cases hd
    refine h.elsewhere rfl ?_
    rw [hpc, hquiet.inHand]
    rfl
  | parsed v buffer hpc hbad hne d hd => exact h.elsewhere rfl (by simp [hpc, ScraperPc.inHand, datumIn_of_ok hd])
  | push d hpc => exact h.elsewhere rfl (by simp [hpc, ScraperPc.inHand, Thread.push])

theorem scraping_step (h : Scraping clientId t s) (hstep : s.step clientId keepAlive a = some s') :
    Scraping clientId t s' := by
  cases a with
  | scrape u => exact scraping_scrapes h (scrapes_iff.mp hstep)
  | client m =>
    obtain ⟨client, hnext, rfl⟩ := Option.map_eq_some_iff.mp hstep
    exact h.elsewhere rfl (by rw [pushed_of_moves (Thread.moves_of_next hnext)])

theorem scraping_init (clientId t : Bytes) (padding : Padding) : Scraping clientId t (init (.ofText t) padding) :=
  ⟨rfl, [], fun _ => .zero, fun _ => rfl, nofun, rfl⟩

/-- **Every run of the threads.** -/
theorem scraping_run {as : List Action} {padding : Padding}
    (hrun : Runs (StepOf (step clientId keepAlive)) (init (.ofText t) padding) as s) : Scraping clientId t s :=
  hrun.invariant (I := fun _ s => Scraping clientId t s) (scraping_init clientId t padding)
    fun _ _ _ _ _ ih hstep => scraping_step ih hstep

/-- What has been pushed is a beginning of what the text holds, and all of it when nothing is left to be read and
the scraper holds nothing. -/
theorem Scraping.pushed (h : Scraping clientId t s) : ∃ us, s.client.pushed <+: dataIn clientId us (readable t) ∧
    (s.stream.good = false → s.scraper.Quiet clientId → s.client.pushed = dataIn clientId us (readable t)) := by
  obtain ⟨before, us, hread, hall, hdata⟩ := h.lines
  have hprefix : before <+: readable t := by
    cases hgood : s.stream.good with
    | true => exact ⟨_, (hread hgood).symm⟩
    | false => rw [hall hgood]
  refine ⟨us, ?_, fun hgood hquiet => ?_⟩
  · have hpushed : s.client.pushed <+: dataIn clientId us before := ⟨_, hdata.symm⟩
    exact hpushed.trans (dataIn_mono us hprefix)
  · rw [hall hgood, hdata, hquiet.inHand, List.append_nil]

end Threads

end Scraping

open Threads

/-- **What is scraped does not depend on the interleaving.** In every run of the two threads on any text, the data
pushed are those that the readable lines hold, from the first on: a beginning of them, and all of them once the
stream is no longer good and the scraper holds nothing. -/
theorem scraped_in_every_interleaving {clientId t : Bytes} {keepAlive : Bool} {padding : Padding}
    {as : List Action} {s : Threads}
    (hrun : Runs (StepOf (step clientId keepAlive)) (init (.ofText t) padding) as s) :
    ∃ us, s.client.pushed <+: dataIn clientId us (readable t) ∧
      (s.stream.good = false → s.scraper.Quiet clientId → s.client.pushed = dataIn clientId us (readable t)) :=
  (scraping_run hrun).pushed

/-- The last line has no newline, and is pushed when the client has returned. -/
theorem scraped_in_every_interleaving_last :
    ∃ s us, Runs (StepOf (step [] false)) (init (.ofText sumLine) (.replicate 0))
        (stoppedEarly ++ List.replicate 3 (Action.scrape .zero)) s ∧ s.client.pushed.length = 1 ∧
      s.client.pushed <+: dataIn [] us (readable sumLine) ∧
      (s.stream.good = false → s.scraper.Quiet [] → s.client.pushed = dataIn [] us (readable sumLine)) := by
  have hplay : (play (step [] false) (init (.ofText sumLine) (.replicate 0))
      (stoppedEarly ++ List.replicate 3 (Action.scrape .zero))).any (fun s =>
        decide (s.client.pushed.length = 1)) = true := by decide +kernel
  obtain ⟨s, hs, hone⟩ := (Option.any_eq_true _ _).mp hplay
  obtain ⟨us, hprefix, hall⟩ := scraped_in_every_interleaving (runs_of_play hs)
  exact ⟨s, us, runs_of_play hs, of_decide_eq_true hone, hprefix, hall⟩

end TCPClientServer.Calculator
