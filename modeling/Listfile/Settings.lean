/-!
# Settings

Two choices are left to the user of the lexer: whether runs of blanks are tokens, and how many
bytes are asked of a source at a time. The second is never less than `Settings.leastChunkSize`.
-/

namespace Listfile

/-- Choices that hold for a whole run of the lexer. -/
structure Settings where
  /-- Whether runs of spaces and tabs become tokens. -/
  emitSpace : Bool
  /-- The number of bytes asked of a source at a time, before clamping. -/
  chunkSize : Nat
deriving DecidableEq, Repr

namespace Settings

/-- The chunk size if none is chosen. -/
def defaultChunkSize : Nat := 4096

/-- The smallest chunk size in use. Scanning looks at most two bytes ahead, so any window this large
is large enough. -/
def leastChunkSize : Nat := 16

/-- Blanks are skipped, and chunks have the default size. -/
def default : Settings := ⟨false, defaultChunkSize⟩

instance : Inhabited Settings := ⟨default⟩

/-- The same settings, with blank runs emitted or not. -/
def withEmitSpace (settings : Settings) (emit : Bool) : Settings :=
  { settings with emitSpace := emit }

/-- The same settings, with chunks of the given size or the least size, whichever is larger. -/
def withChunkSize (settings : Settings) (size : Nat) : Settings :=
  { settings with chunkSize := max size leastChunkSize }

/-- The chunk size in use, which is at least the least size whatever the field holds. -/
def windowSize (settings : Settings) : Nat :=
  max settings.chunkSize leastChunkSize

theorem leastChunkSize_le_windowSize (settings : Settings) :
    leastChunkSize ≤ settings.windowSize :=
  Nat.le_max_right _ _

end Settings

end Listfile
