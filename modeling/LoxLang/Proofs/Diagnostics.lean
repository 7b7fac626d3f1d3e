import LoxLang.Program.Equality
import LoxLang.Proofs.Diagnostics.Extents
import LoxLang.Proofs.Diagnostics.Lines
import LoxLang.Proofs.Diagnostics.Pending
import LoxLang.Proofs.Tracks
import Mathlib.Algebra.GroupWithZero.Nat

/-!
# Where diagnostics point

A session keeps all sources that it is given on one axis, and each fault that it reports points into
them: to a part of the source that was refused, or of one whose program was accepted
(`Session.pointsInto_of_failed`). The line of a fault is the line in that source and the line breaks
of the sources before, so it stays the same however the session goes on.

The invariant of a session is that it keeps what it was given, and that the functions in its heap
are written in sources that were accepted (`Session.Keeps`).
-/

namespace LoxLang

open Lexeme Text

/-! ### Chunks -/

/-- A source that a session was given. -/
structure Chunk where
  /-- Where its text starts. -/
  offset : Nat
  /-- Its text, without the line break that is kept after it. -/
  text : String
  /-- Whether its program was accepted, and run. -/
  accepted : Bool

namespace Chunk

/-- What a session keeps of the source. -/
def kept (c : Chunk) : List Char := c.text.toList ++ ['\n']

/-- The line breaks in what is kept of the source. -/
def breaks (c : Chunk) : Nat := c.text.toList.count '\n' + 1

/-- A span of the session, counted from the start of the source. -/
def inside (c : Chunk) (s : Span) : Span := ⟨s.start - c.offset, s.stop - c.offset⟩

/-- The span is that of a piece of a source that was accepted. -/
def Ran (chunks : List Chunk) (s : Span) : Prop :=
  ∃ c ∈ chunks, c.accepted = true ∧ Piece c.offset c.text.toList s

/-- What was accepted before still is. -/
theorem Ran.append {chunks : List Chunk} {span : Span} (h : Ran chunks span) (c : Chunk) :
    Ran (chunks ++ [c]) span := by
  obtain ⟨d, hd, hpiece⟩ := h
  exact ⟨d, List.mem_append_left _ hd, hpiece⟩

/-- The line breaks of the texts that are kept are those of the chunks. -/
theorem count_kept (chunks : List Chunk) :
    (chunks.flatMap kept).count '\n' = (chunks.map breaks).sum := by
  rw [List.count_flatMap]
  congr 1
  refine List.map_congr_left fun c _ ↦ ?_
  simp [kept, breaks]

end Chunk

namespace Session

/-- The chunk that a session makes of a source. -/
def chunk (s : Session) (text : String) : Chunk :=
  ⟨s.source.utf8ByteSize, text, (s.load text).2.isOk⟩

/-- The chunks of several sources. -/
def chunks (w : World) (s : Session) : List (Nat × String) → List Chunk
  | [] => []
  | (fuel, text) :: rest =>
    s.chunk text :: chunks (s.run fuel w text).2.1 (s.run fuel w text).2.2 rest

/-- The chunks of a session are those of its first sources and then those of the others. -/
theorem chunks_append (w : World) (s : Session) (before after : List (Nat × String)) :
    s.chunks w (before ++ after) =
      s.chunks w before ++ (s.replay w before).2.chunks (s.replay w before).1 after := by
  induction before generalizing w s with
  | nil => rfl
  | cons source rest ih => exact congrArg (_ :: ·) (ih _ _)

end Session

/-! ### Faults that point into sources -/

/-- How a fault points into the source of a session after it was reported for the last of these
chunks. -/
structure Fault.PointsInto (chunks : List Chunk) (source : String) (f : Fault) : Prop where
  /-- The span is one of the source. -/
  bounds : f.span.start ≤ f.span.stop ∧ f.span.stop ≤ source.utf8ByteSize
  /-- It is empty only where the text ends too early. -/
  nonempty : f.span.start = f.span.stop → ∃ expected, f.cause = .unexpectedEnd expected
  /-- Both ends of it lie between characters, and its line is told by the line breaks before. -/
  characters : ∃ before shown after, source.toList = before ++ shown ++ after ∧
    f.span = .over (byteLength before) shown ∧ lineOf source f.span = 1 + before.count '\n'
  /-- It lies in one of the chunks: a fault that is found in the text in the last, and any other in
  one that was accepted. Its line is that in the chunk, behind the lines of the chunks before. -/
  chunk : ∃ earlier c later, chunks = earlier ++ c :: later ∧
    (if f.isStatic then later = [] else c.accepted = true) ∧
    c.offset ≤ f.span.start ∧ f.span.stop ≤ c.offset + c.text.utf8ByteSize ∧
    lineOf source f.span = lineOf c.text (c.inside f.span) + (earlier.map Chunk.breaks).sum

namespace Session

/-- The session keeps just these chunks, and functions that are written in accepted ones. -/
structure Keeps (s : Session) (chunks : List Chunk) : Prop where
  source : s.source.toList = chunks.flatMap Chunk.kept
  offset : ∀ earlier c later, chunks = earlier ++ c :: later →
    c.offset = byteLength (earlier.flatMap Chunk.kept)
  heap : s.heap.Satisfies (.written (Chunk.Ran chunks))

section Keeps

variable {s : Session} {chunks : List Chunk} {w : World} {fuel : Nat} {text : String}

theorem keeps_new : new.Keeps [] where
  source := rfl
  offset earlier c later h := by simp at h
  heap := Moment.satisfies_new

/-- A fault that stands in a chunk points into what the session keeps. -/
theorem Keeps.pointsInto (h : s.Keeps chunks) {f : Fault} {earlier later : List Chunk} {c : Chunk}
    (hchunks : chunks = earlier ++ c :: later) (hf : f.StandsIn c.offset c.text.toList)
    (htrack : if f.isStatic then later = [] else c.accepted = true) :
    f.PointsInto chunks s.source := by
  obtain ⟨shown, hslice, hnonempty⟩ := hf
  have hoffset := h.offset earlier c later hchunks
  have hle := hslice.le_start
  have hstop := hslice.stop_le
  rw [byteLength_toList] at hstop
  obtain ⟨before, after, htext, hspan⟩ := hslice
  let front := earlier.flatMap Chunk.kept
  have hsource : s.source.toList =
      (front ++ before) ++ shown ++ (after ++ '\n' :: later.flatMap Chunk.kept) := by
    rw [h.source, hchunks, List.flatMap_append, List.flatMap_cons, Chunk.kept, htext]
    simp [front]
  have hover : f.span = .over (byteLength (front ++ before)) shown := by
    rw [hspan, hoffset, byteLength_append]
  have hline : lineOf s.source f.span = 1 + (front ++ before).count '\n' :=
    lineOf_eq (by rw [hsource, List.append_assoc]) (by rw [hover]; rfl)
  have hinside : lineOf c.text (c.inside f.span) = 1 + before.count '\n' := by
    refine lineOf_eq (by rw [htext, List.append_assoc]) ?_
    show f.span.start - c.offset = byteLength before
    rw [hspan]
    exact Nat.add_sub_cancel_left ..
  refine ⟨⟨?_, ?_⟩, fun heq ↦ hnonempty ?_, ⟨_, shown, _, hsource, hover, hline⟩,
    earlier, c, later, hchunks, htrack, hle, hstop, ?_⟩
  · rw [hover]
    exact Nat.le_add_right ..
  · rw [← byteLength_toList, hsource, hover]
    simp only [Span.over, byteLength_append]
    omega
  · rw [hspan] at heq
    have hlength := length_le_byteLength shown
    have hzero : c.offset + byteLength before =
      c.offset + byteLength before + byteLength shown := heq
    exact List.length_eq_zero_iff.1 (by omega)
  · rw [hline, hinside, List.count_append, Chunk.count_kept]
    omega

/-- A chunk is added when its source is kept, if the functions are written in accepted chunks
then. -/
theorem Keeps.add (h : s.Keeps chunks) {s' : Session}
    (hsource : s'.source = s.source ++ text ++ "\n")
    (hheap : s'.heap.Satisfies (.written (Chunk.Ran (chunks ++ [s.chunk text])))) :
    s'.Keeps (chunks ++ [s.chunk text]) where
  source := by
    rw [hsource, String.toList_append, String.toList_append, h.source, List.flatMap_append,
      List.flatMap_singleton, List.append_assoc]
    rfl
  offset earlier c later hchunks := by
    rcases later.eq_nil_or_concat with rfl | ⟨later, d, rfl⟩
    · obtain ⟨rfl, hc⟩ := List.append_inj' hchunks rfl
      obtain rfl := List.singleton_inj.1 hc
      rw [← h.source, byteLength_toList]
      rfl
    · rw [List.concat_eq_append, ← List.cons_append, ← List.append_assoc] at hchunks
      exact h.offset earlier c later (List.append_inj' hchunks rfl).1
  heap := hheap

theorem Keeps.heap_append (h : s.Keeps chunks) (c : Chunk) :
    s.heap.Satisfies (.written (Chunk.Ran (chunks ++ [c]))) :=
  h.heap.mono fun _ hv ↦ hv.mono (Demands.written_le fun _ hspan ↦ hspan.append c)

/-- An accepted program begins with code that is written in accepted chunks, its own among them. -/
theorem Keeps.start (h : s.Keeps chunks) {p : Program}
    (hread : Program.read text s.source.utf8ByteSize = .ok p)
    (haccepted : (s.chunk text).accepted = true) :
    (State.start s.heap p).Written (Chunk.Ran (chunks ++ [s.chunk text])) ∧
      (State.start s.heap p).Satisfies (.written (Chunk.Ran (chunks ++ [s.chunk text]))) := by
  refine ⟨⟨fun n hn ↦ ?_, trivial⟩, h.heap_append _, nofun⟩
  exact ⟨s.chunk text, List.mem_append_right _ List.mem_cons_self, haccepted,
    Program.piece_of_node hread hn⟩

/-- The chunk of a source that is loaded is an accepted one. -/
theorem accepted_chunk {s₁ : Session} {p : Program} (hload : s.load text = (s₁, .ok p)) :
    (s.chunk text).accepted = true := by
  rw [chunk, hload]
  rfl

/-- Running a source adds its chunk. -/
theorem Keeps.run (h : s.Keeps chunks) (w : World) (fuel : Nat) (text : String) :
    (s.run fuel w text).2.2.Keeps (chunks ++ [s.chunk text]) := by
  refine h.add (source_run w s fuel text) ?_
  rcases hload : s.load text with ⟨s₁, faults | p⟩
  · have hheap : (s.run fuel w text).2.2.heap = s.heap := by
      unfold Session.run
      rw [hload]
      exact heap_of_load hload
    rw [hheap]
    exact h.heap_append _
  · obtain ⟨hread, -, -⟩ := load_eq_ok.1 hload
    obtain ⟨hwritten, hsatisfies⟩ := h.start hread (accepted_chunk hload)
    rw [run_of_load hload, heap_of_load hload]
    exact (hwritten.run hsatisfies fuel w).1

/-- What a session is given is what it keeps. -/
theorem Keeps.replay (h : s.Keeps chunks) (w : World) (sources : List (Nat × String)) :
    (s.replay w sources).2.Keeps (chunks ++ s.chunks w sources) := by
  induction sources generalizing w s chunks with
  | nil =>
    rw [Session.chunks, List.append_nil]
    exact h
  | cons source rest ih =>
    obtain ⟨fuel, text⟩ := source
    rw [Session.chunks, List.append_cons]
    exact ih (h.run w fuel text) _

end Keeps

/-- A source that is given later leaves what was kept before. -/
theorem exists_source_replay (w : World) (s : Session) (sources : List (Nat × String)) :
    ∃ more, (s.replay w sources).2.source = s.source ++ more := by
  induction sources generalizing w s with
  | nil => exact ⟨"", String.append_empty.symm⟩
  | cons source rest ih =>
    obtain ⟨fuel, text⟩ := source
    obtain ⟨more, hmore⟩ := ih (s.run fuel w text).2.1 (s.run fuel w text).2.2
    refine ⟨text ++ "\n" ++ more, ?_⟩
    rw [replay, hmore, source_run]
    simp only [String.append_assoc]

/-- A source is refused for faults that point into it. -/
theorem Keeps.pointsInto_of_refused {s s' : Session} {chunks : List Chunk} (h : s.Keeps chunks)
    {text : String} {faults : List Fault} (hload : s.load text = (s', .error faults)) :
    ∀ f ∈ faults, f.PointsInto (chunks ++ [s.chunk text]) s'.source := by
  intro f hf
  obtain ⟨-, hrefused⟩ := Refused.of_load hload (.ofInput [] none fun _ ↦ 0)
  have hkeeps : s'.Keeps (chunks ++ [s.chunk text]) := by
    refine h.add (by rw [← source_load, hload]) ?_
    rw [heap_of_load hload]
    exact h.heap_append _
  have hstands : f.StandsIn s.source.utf8ByteSize text.toList := by
    rcases hrefused.rejected with hread | ⟨p, hread, hdistances⟩
    · exact Program.standsIn_of_read_error hread f hf
    · exact Program.standsIn_of_distances_error hread hdistances f hf
  exact hkeeps.pointsInto (c := s.chunk text) rfl hstands (by rw [if_pos (hrefused.static f hf)])

/-- A program is stopped by a fault that points into it or into one that was accepted before. -/
theorem Keeps.pointsInto_of_stopped {s s' : Session} {chunks : List Chunk} (h : s.Keeps chunks)
    {text : String} {s₁ : Session} {p : Program} (hload : s.load text = (s₁, .ok p)) {fuel : Nat}
    {w w' : World} {faults : List Fault} (hrun : s.run fuel w text = (.failed faults, w', s')) :
    ∀ f ∈ faults, f.PointsInto (chunks ++ [s.chunk text]) s'.source := by
  obtain ⟨⟨f, rfl, hlate⟩, p, table, hread, -, hstuck⟩ := Stopped.of_load hload hrun
  have hkeeps := h.run w fuel text
  rw [hrun] at hkeeps
  obtain ⟨hwritten, hsatisfies⟩ := h.start hread (accepted_chunk hload)
  have hending := congrArg (·.2.2) (hstuck f List.mem_cons_self)
  obtain ⟨c, hc, haccepted, hpiece⟩ := (hwritten.run hsatisfies fuel w).2 f hending
  obtain ⟨earlier, later, hchunks⟩ := List.append_of_mem hc
  refine List.forall_mem_singleton.2 (hkeeps.pointsInto hchunks (.of_piece hpiece) ?_)
  rwa [if_neg (ne_true_of_eq_false hlate)]

/-- Whatever a session was given before, each fault that it reports for a source points into what it
keeps: its span is one of the kept text, with both ends between characters, and empty only where a
text ends too early. A fault that is found in the text lies in the source that it is reported for,
and any other in a source that was accepted. Its line is one more than the number of line breaks
before it, and so the line in the source that it lies in, behind the lines of earlier sources.
Whatever the session is given later, the line stays the same. -/
theorem pointsInto_of_failed {w w' : World} {before : List (Nat × String)} {fuel : Nat}
    {text : String} {faults : List Fault} {s' : Session}
    (h : (new.replay w before).2.run fuel (new.replay w before).1 text =
      (.failed faults, w', s')) :
    ∀ f ∈ faults, f.PointsInto (new.chunks w (before ++ [(fuel, text)])) s'.source ∧
      ∀ after, lineOf (s'.replay w' after).2.source f.span = lineOf s'.source f.span := by
  intro f hf
  have hkeeps : (new.replay w before).2.Keeps (new.chunks w before) := keeps_new.replay w before
  have hpoints : f.PointsInto (new.chunks w (before ++ [(fuel, text)])) s'.source := by
    rw [chunks_append]
    rcases hload : (new.replay w before).2.load text with ⟨s₁, found | p⟩
    · unfold run at h
      rw [hload] at h
      obtain ⟨rfl, -, rfl⟩ : found = faults ∧ _ = w' ∧ s₁ = s' := by simpa using h
      exact hkeeps.pointsInto_of_refused hload f hf
    · exact hkeeps.pointsInto_of_stopped hload h f hf
  refine ⟨hpoints, fun after ↦ ?_⟩
  obtain ⟨front, shown, rest, hsource, hspan, hline⟩ := hpoints.characters
  obtain ⟨more, hmore⟩ := exists_source_replay w' s' after
  have hfront : (s'.replay w' after).2.source.toList = front ++ (shown ++ rest ++ more.toList) := by
    rw [hmore, String.toList_append, hsource]
    simp
  rw [hline]
  exact lineOf_eq hfront (by rw [hspan]; rfl)

/-- What a function leaves that is declared in the second line of its source. It reads a variable
that is not bound. -/
def declared : Session where
  source := "// é\nfun f() \x7b return x; \x7d\n"
  distances := []
  heap :=
    { frames := #[[("clock", .native .clock), ("input", .native .input),
        ("f", .function 0 ⟨.mk ⟨6, 27⟩ "f" [] [.returns ⟨16, 25⟩ (some (.var ⟨23, 24⟩ "x"))],
          Heap.globals, false⟩)]]
      objects := #[], nextFunction := 1, nextClass := 0 }

/-- A function that an earlier source declares reads a variable that is not bound, in the second
line of that source. -/
theorem pointsInto_of_failed_earlier :
    ∃ given f w' s', given = [(12, "// é\nfun f() \x7b return x; \x7d")] ∧
      f = ⟨.notDefined "x", ⟨23, 24⟩⟩ ∧
      (new.replay (.ofInput [] none fun _ ↦ 0) given).2.run 12
        (new.replay (.ofInput [] none fun _ ↦ 0) given).1 "f();" = (.failed [f], w', s') ∧
      f.PointsInto (new.chunks (.ofInput [] none fun _ ↦ 0) (given ++ [(12, "f();")])) s'.source ∧
      lineOf s'.source f.span = 2 := by
  let f : Fault := ⟨.notDefined "x", ⟨23, 24⟩⟩
  let w : World := .ofInput [] none fun _ ↦ 0
  have hdeclares : new.load "// é\nfun f() \x7b return x; \x7d" =
      (⟨declared.source, [], new.heap⟩,
        .ok [.funDecl (.mk ⟨6, 27⟩ "f" [] [.returns ⟨16, 25⟩ (some (.var ⟨23, 24⟩ "x"))])]) :=
    load_of_read globalNames_new (by decide +kernel) rfl rfl rfl
  have hdeclared : new.replay w [(12, "// é\nfun f() \x7b return x; \x7d")] = (w, declared) := by
    rw [replay, run_of_load hdeclares]
    rfl
  have hnames : declared.globalNames = ["clock", "f", "input"] :=
    Table.names_eq (by decide +kernel) (by decide +kernel)
  have hcalls : declared.load "f();" =
      ({ declared with source := declared.source ++ "f();" ++ "\n" },
        .ok [.expression ⟨28, 32⟩ (.call ⟨28, 31⟩ (.var ⟨28, 29⟩ "f") [])]) :=
    load_of_read hnames (by decide +kernel) rfl rfl rfl
  have hrun : (new.replay w [(12, "// é\nfun f() \x7b return x; \x7d")]).2.run 12
      (new.replay w [(12, "// é\nfun f() \x7b return x; \x7d")]).1 "f();" =
        (.failed [f], w, { declared with
          source := declared.source ++ "f();" ++ "\n"
          heap := { declared.heap with frames := declared.heap.frames.push [] } }) := by
    rw [hdeclared]
    exact run_of_load hcalls 12 w
  exact ⟨_, f, _, _, rfl, rfl, hrun, (pointsInto_of_failed hrun f List.mem_cons_self).1,
    by decide +kernel⟩

end Session

end LoxLang
