import Listfile.Proofs.Delivery

/-!
# Chunking is invisible

Where a source cuts its bytes, and how many of them a window holds, decides when a scanner has to
refill: inside a word, between a backslash and the byte that it escapes, in the middle of an opener
or a closer. None of it shows in what is read. Two scanners whose sources hand out the same bytes
before they answer with none give the same readings, token by token and position by position, and
also all those after the end (`readingsN_eq_of_supplies`).

The bytes that count are those handed out in the run itself (`Source.Supplies`). So nothing is asked
of the sources but the law that answers fit the room; in particular the bytes may depend on the room
offered. A source that delivers given bytes whatever it is asked supplies them to every scanner
(`Delivers.supplies`).
-/

namespace Listfile

variable {σ : Type} [Source σ]

/-- A scanner with these settings reads the source to its end, and `bytes` is what the source hands
out before its first empty answer. After that answer it is not asked again. -/
def Source.Supplies (settings : Settings) (source : σ) (bytes : List UInt8) : Prop :=
  ∃ n, (Scanner.after n (Scanner.ofSource settings source) Draft.empty).1.window.exhausted = true ∧
    (Scanner.after n (Scanner.ofSource settings source) Draft.empty).1.window.delivered = bytes

/-- A path from a fresh window to its end consumes all that has been handed out. -/
theorem Window.Path.delivered_of_atEnd {source : σ} {capacity : Nat} {bytes : List UInt8}
    {w : Window σ} (path : Path (ofSource source capacity) bytes w) (hend : w.AtEnd) :
    w.delivered = bytes := by
  obtain ⟨fresh, hdelivered, hunread⟩ := path.delivered
  have hfresh : fresh = bytes := by
    rw [hend.unread, List.append_nil] at hunread
    exact hunread
  rw [hdelivered, hfresh]
  rfl

/-- A scanner holds the bytes with which its source supplies it. -/
theorem Source.Supplies.holds {settings : Settings} {source : σ} {bytes : List UInt8}
    (h : Source.Supplies settings source bytes) :
    (Scanner.ofSource settings source).Holds Draft.empty bytes := by
  obtain ⟨n, hexhausted, hdelivered⟩ := h
  -- The calls after the first empty answer only use up what is unread.
  obtain ⟨m, hend⟩ := Scanner.exists_atEnd
    (Scanner.after n (Scanner.ofSource settings source) Draft.empty).1
    (Scanner.after n (Scanner.ofSource settings source) Draft.empty).2
  obtain ⟨more, hmore⟩ := Scanner.after_path m
    (Scanner.after n (Scanner.ofSource settings source) Draft.empty).1
    (Scanner.after n (Scanner.ofSource settings source) Draft.empty).2
  have hsame := (hmore.of_exhausted hexhausted).2
  rw [← Scanner.after_add] at hend hsame
  obtain ⟨input, hpath⟩ :=
    Scanner.after_path (n + m) (Scanner.ofSource settings source) Draft.empty
  have hinput : input = bytes := by
    rw [← hdelivered, ← hsame]
    exact (hpath.delivered_of_atEnd hend).symm
  rw [hinput] at hpath
  exact ⟨n + m, hend, hpath⟩

/-- The bytes that a scanner on a fresh source holds are those that its source supplies. -/
theorem Scanner.Holds.supplies {settings : Settings} {source : σ} {bytes : List UInt8}
    (h : (Scanner.ofSource settings source).Holds Draft.empty bytes) :
    Source.Supplies settings source bytes := by
  obtain ⟨n, hend, hpath⟩ := h
  exact ⟨n, hend.exhausted, hpath.delivered_of_atEnd hend⟩

/-- A source supplies every scanner with the bytes that it delivers. -/
theorem Source.Delivers.supplies {source : σ} {bytes : List UInt8}
    (h : Source.Delivers source bytes) (settings : Settings) :
    Source.Supplies settings source bytes :=
  (h.holds settings Draft.empty).supplies

namespace Scanner

/-- Chunking is invisible: two sources of whatever sorts that supply the same bytes, read with
whatever chunk sizes and the same choice about blanks, give the same readings. -/
theorem readingsN_eq_of_supplies {σ₁ σ₂ : Type} [Source σ₁] [Source σ₂] {settings₁ : Settings}
    {settings₂ : Settings} {source₁ : σ₁} {source₂ : σ₂} {bytes : List UInt8}
    (hemit : settings₁.emitSpace = settings₂.emitSpace)
    (h₁ : Source.Supplies settings₁ source₁ bytes) (h₂ : Source.Supplies settings₂ source₂ bytes)
    (n : Nat) :
    (readingsN n (ofSource settings₁ source₁) Draft.empty).1 =
      (readingsN n (ofSource settings₂ source₂) Draft.empty).1 := by
  rw [readingsN_eq h₁.holds n, readingsN_eq h₂.holds n]
  simp only [ofSource, hemit]
  rfl

/-- A quoted argument with an escaped quote and an unfinished opener: all at once with a chunk size
below the least, and cut behind the first quote, behind the backslash and inside the opener. -/
theorem readingsN_memory_eq_pieces :
    (readingsN 5 (ofSource ⟨true, 0⟩
        (⟨[Byte.quote, 0x61, Byte.backslash, Byte.quote, Byte.quote, Byte.bracketLeft,
          Byte.equals, Byte.bracketLeft]⟩ : Memory)) Draft.empty).1 =
      (readingsN 5 (ofSource ⟨true, 20⟩
        (⟨[[Byte.quote], [0x61, Byte.backslash], [Byte.quote, Byte.quote, Byte.bracketLeft,
          Byte.equals], [Byte.bracketLeft], []]⟩ : Pieces)) Draft.empty).1 := by
  have hmemory := (Memory.delivers ⟨[Byte.quote, 0x61, Byte.backslash, Byte.quote, Byte.quote,
    Byte.bracketLeft, Byte.equals, Byte.bracketLeft]⟩).supplies ⟨true, 0⟩
  have hpieces := (Pieces.delivers ⟨[[Byte.quote], [0x61, Byte.backslash], [Byte.quote, Byte.quote,
    Byte.bracketLeft, Byte.equals], [Byte.bracketLeft], []]⟩).supplies ⟨true, 20⟩
  exact readingsN_eq_of_supplies (by rfl) hmemory hpieces 5

end Scanner

end Listfile
