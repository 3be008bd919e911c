import Listfile.Token.Draft

/-!
# The storage of a draft fits the longest text

The text of a draft is kept in storage that is used again and again. It grows in two ways, to one byte
more than a text that is put in whole, and to exactly the length of a text that is added to. Whatever is
done to a draft, and in whatever order, its storage has room for the longest text so far and for at most
one byte more, and it never shrinks (`edits_snug`).

Two things stand beside a draft here.

* A plain list of bytes, on which the same edits are carried out (`Edit.onText`). The longest text is
  measured there (`Edit.greatest`).
* A buffer, whose storage is allocated explicitly and never grows by itself (`Buffer`). The same edits
  can be carried out on it with the same capacities, so what a draft says about its storage is what
  allocations of exactly the size asked for amount to (`Buffer.Keeps.perform`).
-/

namespace Listfile

/-! ## Edits -/

/-- What can be done to a draft. -/
inductive Edit where
  /-- Begin a token. -/
  | start (position : Position)
  /-- Put bytes in place of the text. -/
  | set (bytes : List UInt8)
  /-- Put bytes after the text. -/
  | append (bytes : List UInt8)
  /-- Take the last bytes off the text. -/
  | strip (n : Nat)
  /-- Give the token its kind. -/
  | finish (kind : Kind)
deriving DecidableEq, Repr

namespace Edit

/-- What becomes of a text that is a plain list of bytes. -/
def onText (text : List UInt8) : Edit → List UInt8
  | start _ => []
  | set bytes => bytes
  | append bytes => text ++ bytes
  | strip n => text.take (text.length - n)
  | finish _ => text

/-- No more bytes are taken off the text than it has. -/
def Fits (text : List UInt8) : Edit → Prop
  | strip n => n ≤ text.length
  | _ => True

/-- So it is with each of several edits, one after the other. -/
def AllFit (text : List UInt8) : List Edit → Prop
  | [] => True
  | e :: later => e.Fits text ∧ AllFit (e.onText text) later

/-- The greatest length that the text has in the course of several edits, from the start on. -/
def greatest (text : List UInt8) : List Edit → Nat
  | [] => text.length
  | e :: later => max text.length (greatest (e.onText text) later)

theorem allFit_append (text : List UInt8) (edits later : List Edit) :
    AllFit text (edits ++ later) ↔
      AllFit text edits ∧ AllFit (edits.foldl onText text) later := by
  induction edits generalizing text with
  | nil => simp [AllFit]
  | cons e edits ih => simp [AllFit, ih, and_assoc]

theorem length_le_greatest (text : List UInt8) (edits : List Edit) :
    text.length ≤ greatest text edits := by
  cases edits with
  | nil => exact Nat.le_refl _
  | cons e later => exact Nat.le_max_left _ _

theorem greatest_append (text : List UInt8) (edits later : List Edit) :
    greatest text (edits ++ later) =
      max (greatest text edits) (greatest (edits.foldl onText text) later) := by
  induction edits generalizing text with
  | nil => exact (Nat.max_eq_right (length_le_greatest text later)).symm
  | cons e edits ih =>
    simp only [List.cons_append, List.foldl_cons, greatest, ih, Nat.max_assoc]

end Edit

/-! ## Drafts under edits -/

namespace Draft

/-- Carry out one edit. -/
def perform (d : Draft) : Edit → Except Violation Draft
  | .start p => .ok (d.start p)
  | .set bytes => .ok (d.set bytes)
  | .append bytes => .ok (d.append bytes)
  | .strip n => d.strip n
  | .finish kind => .ok (d.finish kind)

/-- Carry out edits one after the other. -/
def edit (d : Draft) (edits : List Edit) : Except Violation Draft :=
  edits.foldlM perform d

theorem size_body (d : Draft) : d.body.size = d.text.length :=
  d.body.length_toList.symm

theorem capacity_append (d : Draft) (bytes : List UInt8) :
    (d.append bytes).capacity = max d.capacity (d.text.length + bytes.length) := by
  rw [← size_body]
  rfl

/-- What an edit does to the storage: it is kept and the text fits, or the text has outgrown it and
there is other storage for the text and for at most one byte more. -/
inductive Stores (d d' : Draft) : Prop where
  /-- The storage is kept. -/
  | kept (same : d'.capacity = d.capacity) (fits : d'.text.length ≤ d.capacity)
  /-- There is other storage. -/
  | grown (full : d.capacity ≤ d'.text.length) (low : d'.text.length ≤ d'.capacity)
      (high : d'.capacity ≤ d'.text.length + 1)

/-- An edit that fits is carried out, and it does to the text what it does to a plain list. -/
theorem perform_ok {d : Draft} {e : Edit} (h : e.Fits d.text)
    (hroom : d.text.length ≤ d.capacity) :
    ∃ d', d.perform e = .ok d' ∧ d'.text = e.onText d.text ∧ d.Stores d' := by
  cases e with
  | start p => exact ⟨_, rfl, rfl, .kept rfl (Nat.zero_le _)⟩
  | set bytes =>
    refine ⟨_, rfl, rfl, ?_⟩
    by_cases hfull : d.capacity ≤ bytes.length
    · have hcapacity : (d.set bytes).capacity = bytes.length + 1 := if_pos hfull
      have htext : (d.set bytes).text.length = bytes.length := by rw [text_set]
      refine .grown hfull ?_ ?_ <;> omega
    · exact .kept (if_neg hfull) (Nat.le_of_not_le hfull)
  | append bytes =>
    have htext : (d.append bytes).text.length = d.text.length + bytes.length := by
      rw [text_append, List.length_append]
    have hcapacity := d.capacity_append bytes
    refine ⟨_, rfl, text_append d bytes, ?_⟩
    by_cases hfull : d.capacity ≤ d.text.length + bytes.length
    · apply Stores.grown <;> omega
    · apply Stores.kept <;> omega
  | strip n =>
    have hstrip : d.strip n = .ok (d.dropLast n) := by
      rw [strip, if_pos]
      rw [size_body]
      exact h
    refine ⟨_, hstrip, text_dropLast d n, .kept rfl ?_⟩
    rw [text_dropLast]
    exact Nat.le_trans (List.length_take_le' _ _) hroom
  | finish kind => exact ⟨_, rfl, rfl, .kept rfl hroom⟩

/-- The storage fits a text of the greatest length so far and at most one byte more. -/
structure Snug (greatest : Nat) (d : Draft) : Prop where
  /-- The text is no longer than that. -/
  text : d.text.length ≤ greatest
  /-- A text of that length has room. -/
  low : greatest ≤ d.capacity
  /-- At most one byte is to spare. -/
  high : d.capacity ≤ greatest + 1

/-- Storage that fits still fits after an edit, and has not shrunk. -/
theorem Snug.of_stores {greatest : Nat} {d d' : Draft} (h : d.Snug greatest)
    (hstores : d.Stores d') :
    d'.Snug (max greatest d'.text.length) ∧ d.capacity ≤ d'.capacity := by
  obtain ⟨-, hlow, hhigh⟩ := h
  cases hstores with
  | kept hsame hfits =>
    refine ⟨⟨Nat.le_max_right _ _, ?_, ?_⟩, Nat.le_of_eq hsame.symm⟩ <;> omega
  | grown hfull hlow' hhigh' =>
    refine ⟨⟨Nat.le_max_right _ _, ?_, ?_⟩, ?_⟩ <;> omega

end Draft

/-! ## Buffers -/

/-- Bytes in storage that has been allocated for a number of them. -/
structure Buffer where
  /-- The bytes held. -/
  bytes : List UInt8
  /-- The number of bytes that the storage was allocated for. -/
  capacity : Nat
  /-- The storage holds the bytes. -/
  fits : bytes.length ≤ capacity

namespace Buffer

/-- Storage allocated for exactly so many bytes, with nothing in it. -/
def allocate (capacity : Nat) : Buffer :=
  ⟨[], capacity, Nat.zero_le _⟩

/-- Forget all but the first bytes, and keep the storage. -/
def truncate (b : Buffer) (n : Nat) : Buffer :=
  ⟨b.bytes.take n, b.capacity, Nat.le_trans (List.length_take_le' _ _) b.fits⟩

/-- Have the storage hold exactly so many bytes more, unless it holds as many already. -/
def reserve (b : Buffer) (more : Nat) : Buffer :=
  ⟨b.bytes, max b.capacity (b.bytes.length + more), Nat.le_trans b.fits (Nat.le_max_left _ _)⟩

/-- Put bytes after those held, which is refused if the storage does not hold them. -/
def extend (b : Buffer) (more : List UInt8) : Option Buffer :=
  if h : b.bytes.length + more.length ≤ b.capacity then
    some ⟨b.bytes ++ more, b.capacity, by rw [List.length_append]; exact h⟩
  else none

/-- Carry out one edit: bytes are put in only after storage has been allocated for them. -/
def perform (b : Buffer) : Edit → Option Buffer
  | .start _ => some (b.truncate 0)
  | .set bytes =>
    if b.capacity ≤ bytes.length then (allocate (bytes.length + 1)).extend bytes
    else (b.truncate 0).extend bytes
  | .append bytes =>
    let required := b.bytes.length + bytes.length
    if b.capacity < required then (b.reserve (required - b.bytes.length)).extend bytes
    else b.extend bytes
  | .strip n => some (b.truncate (b.bytes.length - n))
  | .finish _ => some b

/-- Carry out edits one after the other. -/
def edit (b : Buffer) (edits : List Edit) : Option Buffer :=
  edits.foldlM perform b

/-- The buffer holds the text of the draft in storage of its capacity. -/
structure Keeps (b : Buffer) (d : Draft) : Prop where
  /-- The bytes are the text. -/
  bytes : b.bytes = d.text
  /-- The capacity is that of the draft. -/
  capacity : b.capacity = d.capacity

/-- Bytes that the storage holds can be put in, and the storage stays what it is. -/
theorem extend_ok {b : Buffer} {more : List UInt8} (h : b.bytes.length + more.length ≤ b.capacity) :
    ∃ b', b.extend more = some b' ∧ b'.bytes = b.bytes ++ more ∧ b'.capacity = b.capacity :=
  ⟨_, dif_pos h, rfl, rfl⟩

/-- Every edit that is carried out on the draft is carried out on the buffer. -/
theorem Keeps.perform {b : Buffer} {d d' : Draft} {e : Edit} (h : b.Keeps d)
    (hok : d.perform e = .ok d') : ∃ b', b.perform e = some b' ∧ b'.Keeps d' := by
  obtain ⟨hbytes, hcapacity⟩ := h
  cases e with
  | start p =>
    cases hok
    exact ⟨_, rfl, rfl, hcapacity⟩
  | set bytes =>
    cases hok
    by_cases hfull : b.capacity ≤ bytes.length
    · obtain ⟨b', hextend, hbytes', hcapacity'⟩ :=
        @extend_ok (allocate (bytes.length + 1)) bytes (by simp [allocate])
      refine ⟨b', (if_pos hfull).trans hextend, hbytes', ?_⟩
      rw [hcapacity] at hfull
      exact hcapacity'.trans (if_pos hfull).symm
    · obtain ⟨b', hextend, hbytes', hcapacity'⟩ :=
        @extend_ok (b.truncate 0) bytes (by simp [truncate]; omega)
      refine ⟨b', (if_neg hfull).trans hextend, hbytes', ?_⟩
      rw [hcapacity] at hfull
      exact (hcapacity'.trans hcapacity).trans (if_neg hfull).symm
  | append bytes =>
    cases hok
    have hgrown := d.capacity_append bytes
    by_cases hfull : b.capacity < b.bytes.length + bytes.length
    · obtain ⟨b', hextend, hbytes', hcapacity'⟩ :=
        @extend_ok (b.reserve (b.bytes.length + bytes.length - b.bytes.length)) bytes
          (by simp only [reserve]; omega)
      refine ⟨b', (if_pos hfull).trans hextend, ?_, ?_⟩
      · rw [hbytes', Draft.text_append, ← hbytes]
        rfl
      · simp only [reserve] at hcapacity'
        rw [hbytes] at hfull hcapacity'
        omega
    · obtain ⟨b', hextend, hbytes', hcapacity'⟩ := @extend_ok b bytes (by omega)
      refine ⟨b', (if_neg hfull).trans hextend, ?_, ?_⟩
      · rw [hbytes', Draft.text_append, hbytes]
      · rw [hbytes] at hfull
        omega
  | strip n =>
    simp only [Draft.perform, Draft.strip] at hok
    split at hok
    · cases hok
      refine ⟨_, rfl, ?_, hcapacity⟩
      rw [Draft.text_dropLast, ← hbytes]
      rfl
    · cases hok
  | finish kind =>
    cases hok
    exact ⟨_, rfl, hbytes, hcapacity⟩

end Buffer

/-! ## Courses of edits -/

namespace Draft

/-- Edits that fit are carried out on a draft and on the buffer that keeps it. -/
theorem edit_ok {greatest : Nat} {d : Draft} {b : Buffer} {edits : List Edit}
    (h : d.Snug greatest) (hkeeps : b.Keeps d) (hfit : Edit.AllFit d.text edits) :
    ∃ d' b', d.edit edits = .ok d' ∧ b.edit edits = some b' ∧ b'.Keeps d' ∧
      d'.text = edits.foldl Edit.onText d.text ∧
      d'.Snug (max greatest (Edit.greatest d.text edits)) ∧ d.capacity ≤ d'.capacity := by
  induction edits generalizing greatest d b with
  | nil =>
    refine ⟨d, b, rfl, rfl, hkeeps, rfl, ?_, Nat.le_refl _⟩
    rw [Edit.greatest, Nat.max_eq_left h.text]
    exact h
  | cons e edits ih =>
    obtain ⟨hfits, hlater⟩ := hfit
    obtain ⟨d₁, hok, htext, hstores⟩ := perform_ok hfits (Nat.le_trans h.text h.low)
    obtain ⟨b₁, hbuffer, hkeeps₁⟩ := hkeeps.perform hok
    obtain ⟨hsnug, hle⟩ := h.of_stores hstores
    rw [← htext] at hlater
    obtain ⟨d', b', hok', hbuffer', hkeeps', htext', hsnug', hle'⟩ := ih hsnug hkeeps₁ hlater
    refine ⟨d', b', ?_, ?_, hkeeps', ?_, ?_, Nat.le_trans hle hle'⟩
    · exact bind_eq_ok.2 ⟨d₁, hok, hok'⟩
    · exact Option.bind_eq_some_iff.2 ⟨b₁, hbuffer, hbuffer'⟩
    · rw [htext', htext]
      rfl
    · -- The text before the edit is no longer than the greatest so far.
      have hgreatest : max greatest (Edit.greatest d.text (e :: edits)) =
          max (max greatest d₁.text.length) (Edit.greatest d₁.text edits) := by
        have hstart := Edit.length_le_greatest d₁.text edits
        have hbefore := h.text
        rw [Edit.greatest, ← htext]
        omega
      rw [hgreatest]
      exact hsnug'

/-- A fresh draft has no text and no storage. -/
theorem empty_snug : empty.Snug 0 :=
  ⟨Nat.le_refl 0, Nat.le_refl 0, Nat.zero_le 1⟩

/-- A buffer for which nothing has been allocated keeps it. -/
theorem empty_keeps : (Buffer.allocate 0).Keeps empty :=
  ⟨rfl, rfl⟩

/-- What is known of a draft after edits of a fresh one. -/
structure Kept (edits : List Edit) (d : Draft) : Prop where
  /-- The edits lead to this draft. -/
  run : empty.edit edits = .ok d
  /-- The text is what they make of a plain list of bytes. -/
  text : d.text = edits.foldl Edit.onText []
  /-- The storage fits the longest text so far. -/
  low : Edit.greatest [] edits ≤ d.capacity
  /-- At most one byte is to spare. -/
  high : d.capacity ≤ Edit.greatest [] edits + 1
  /-- A buffer with explicit allocations comes to the same text and the same capacity. -/
  buffer : ∃ b, (Buffer.allocate 0).edit edits = some b ∧ b.Keeps d

/-- After every edit of a course that fits, the storage fits the longest text so far and at most one
byte more, and it never shrinks. -/
theorem edits_snug {edits later : List Edit} (h : Edit.AllFit [] (edits ++ later)) :
    ∃ d d', Kept edits d ∧ Kept (edits ++ later) d' ∧ d.capacity ≤ d'.capacity := by
  obtain ⟨hfit, hmore⟩ := (Edit.allFit_append [] edits later).1 h
  obtain ⟨d, b, hrun, hbuffer, hkeeps, htext, hsnug, -⟩ :=
    edit_ok empty_snug empty_keeps hfit
  rw [Nat.zero_max] at hsnug
  rw [text_empty] at htext hsnug
  rw [← htext] at hmore
  obtain ⟨d', b', hrun', hbuffer', hkeeps', htext', hsnug', hle⟩ := edit_ok hsnug hkeeps hmore
  have hgreatest := Edit.greatest_append [] edits later
  rw [← htext] at hgreatest
  refine ⟨d, d', ⟨hrun, htext, hsnug.low, hsnug.high, b, hbuffer, hkeeps⟩, ?_, hle⟩
  refine ⟨?_, ?_, ?_, ?_, b', ?_, hkeeps'⟩
  · rw [edit, List.foldlM_append]
    exact bind_eq_ok.2 ⟨d, hrun, hrun'⟩
  · rw [htext', htext, List.foldl_append]
  · rw [hgreatest]
    exact hsnug'.low
  · rw [hgreatest]
    exact hsnug'.high
  · rw [Buffer.edit, List.foldlM_append]
    exact Option.bind_eq_some_iff.2 ⟨b, hbuffer, hbuffer'⟩

/-- A text of three bytes is added, cut down, and replaced by another of three bytes; after that one
byte is to spare, which a further addition uses up. -/
theorem edits_snug_of_replaced :
    Edit.AllFit [] ([.append [1, 2, 3], .strip 2, .set [4, 5, 6]] ++
        [.append [7], .start Position.start]) ∧
      ∃ d d', Kept [.append [1, 2, 3], .strip 2, .set [4, 5, 6]] d ∧
        Kept ([.append [1, 2, 3], .strip 2, .set [4, 5, 6]] ++
          [.append [7], .start Position.start]) d' ∧ d.capacity ≤ d'.capacity := by
  have hfit : Edit.AllFit [] ([.append [1, 2, 3], .strip 2, .set [4, 5, 6]] ++
      [.append [7], .start Position.start]) := by
    simp [Edit.AllFit, Edit.Fits, Edit.onText]
  exact ⟨hfit, edits_snug hfit⟩

end Draft

end Listfile
