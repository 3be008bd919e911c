import Mathlib.Data.Nat.Digits.Defs
import Listfile.Command.Options

/-!
# Which arguments the lex command understands, and what they choose

Arguments are taken from left to right, each by itself. So the whole list is understood if and only if
each of its arguments is (`Understood`), the first that is not is the one reported (`Offends`), and what
is chosen is a matter of which arguments occur, and of the last chunk size (`LastSize`). Nothing else
about their order counts.

`Applies` says what one argument does to the options, and `Sets` what a list of them does.
A size is written in decimal digits, and its value is that of the digits in the usual sense
(`parseSize?_eq_some_iff`), however many there are: what does not fit into 64 bits is no size.
-/

namespace Listfile

namespace Command

/-! ## Sizes -/

/-- The number that a decimal digit stands for. -/
def digitValue (c : Char) : Nat :=
  c.toNat - '0'.toNat

/-- The size is written so: decimal digits, at least one, after a plus sign or not, and the number that
they stand for, the last digit being the ones, fits into 64 bits. -/
def WritesSize (value : List Char) (size : Nat) : Prop :=
  ∃ digits : List Char, (value = digits ∨ value = '+' :: digits) ∧ digits ≠ [] ∧
    (∀ c ∈ digits, '0' ≤ c ∧ c ≤ '9') ∧
    size = Nat.ofDigits 10 (digits.reverse.map digitValue) ∧ size < 2 ^ 64

/-- Taking the digits from the left gives their value. -/
theorem digitsValue_eq_ofDigits (digits : List Char) :
    digitsValue digits = Nat.ofDigits 10 (digits.reverse.map digitValue) := by
  rw [digitsValue, List.foldl_eq_foldr_reverse, Nat.ofDigits_eq_foldr, List.foldr_map]
  congr 1
  funext c value
  simp only [digitValue, Nat.cast_id]
  omega

theorem isDigit_iff (c : Char) : c.isDigit = true ↔ '0' ≤ c ∧ c ≤ '9' := by
  simp [Char.isDigit, Char.le_def]

/-- What is left without the plus sign, and what was there before. -/
theorem unsigned_cases (value : List Char) :
    value = unsigned value ∨ value = '+' :: unsigned value := by
  unfold unsigned
  split
  · exact .inr rfl
  · exact .inl rfl

/-- A row of digits has no plus sign. -/
theorem unsigned_of_digits {digits : List Char} (h : ∀ c ∈ digits, c.isDigit = true) :
    unsigned digits = digits := by
  unfold unsigned
  split
  · exact absurd (h '+' List.mem_cons_self) (by decide)
  · rfl

/-- A value is read as a size if and only if the size is written so. -/
theorem parseSize?_eq_some_iff {value : List Char} {size : Nat} :
    parseSize? value = some size ↔ WritesSize value size := by
  have hread : parseSize? value = some size ↔ unsigned value ≠ [] ∧
      (∀ c ∈ unsigned value, c.isDigit = true) ∧ digitsValue (unsigned value) = size ∧
      size < sizeLimit := by
    simp only [parseSize?, Option.ite_none_left_eq_some, Bool.or_eq_true, List.isEmpty_iff,
      Bool.not_eq_true', List.all_eq_false, decide_eq_true_eq, Option.some.injEq]
    grind
  rw [hread]
  constructor
  · rintro ⟨hne, hdigits, hvalue, hlimit⟩
    refine ⟨unsigned value, unsigned_cases value, hne, fun c hc => ?_, ?_, hlimit⟩
    · exact (isDigit_iff c).1 (hdigits c hc)
    · rw [← hvalue, digitsValue_eq_ofDigits]
  · rintro ⟨digits, hsign, hne, hdigits, hvalue, hlimit⟩
    have hall : ∀ c ∈ digits, c.isDigit = true := fun c hc => (isDigit_iff c).2 (hdigits c hc)
    have hunsigned : unsigned value = digits := by
      rcases hsign with rfl | rfl
      · exact unsigned_of_digits hall
      · rfl
    rw [hunsigned, digitsValue_eq_ofDigits]
    exact ⟨hne, hall, hvalue.symm, hlimit⟩

/-- A value is the writing of one size only. -/
theorem WritesSize.unique {value : List Char} {size size' : Nat} (h : WritesSize value size)
    (h' : WritesSize value size') : size = size' := by
  rw [← parseSize?_eq_some_iff] at h h'
  exact Option.some.inj (h.symm.trans h')

/-! ## One argument -/

/-- Whether the argument gives a chunk size, well or badly. -/
def givesSize (argument : String) : Bool :=
  "--chunk-size=".toList.isPrefixOf argument.toList

/-- A text begins with a flag if and only if a value can be split off after it. -/
theorem isPrefixOf_toList_iff {flag argument : String} :
    flag.toList.isPrefixOf argument.toList = true ↔ ∃ value, argument = flag ++ value := by
  rw [List.isPrefixOf_iff_prefix]
  constructor
  · rintro ⟨value, hvalue⟩
    refine ⟨String.ofList value, String.toList_inj.1 ?_⟩
    rw [← hvalue, String.toList_append, String.toList_ofList]
  · rintro ⟨value, rfl⟩
    rw [String.toList_append]
    exact List.prefix_append _ _

theorem drop_toList_append (flag value : String) :
    (flag ++ value).toList.drop flag.toList.length = value.toList := by
  rw [String.toList_append]
  exact List.drop_left

theorem givesSize_iff {argument : String} :
    givesSize argument = true ↔ ∃ value, argument = "--chunk-size=" ++ value :=
  isPrefixOf_toList_iff

/-- The arguments that are understood. -/
inductive Understood : String → Prop where
  /-- Blank runs are to be tokens. -/
  | emitSpace : Understood "--emit-space"
  /-- The file is to be read as a whole. -/
  | memory : Understood "--memory"
  /-- A chunk size is given. -/
  | chunkSize {value : String} {size : Nat} (writes : WritesSize value.toList size) :
      Understood ("--chunk-size=" ++ value)

/-- The arguments that are not understood, and what is said about them. -/
inductive Offends : String → String → Prop where
  /-- What is given as a chunk size is none. -/
  | chunkSize {value : String} (none : ∀ size, ¬ WritesSize value.toList size) :
      Offends ("--chunk-size=" ++ value) ("invalid chunk size '" ++ value ++ "'")
  /-- No option is written like this. -/
  | unknown {argument : String} (emitSpace : argument ≠ "--emit-space")
      (memory : argument ≠ "--memory") (chunkSize : ∀ value, argument ≠ "--chunk-size=" ++ value) :
      Offends argument ("unknown option '" ++ argument ++ "'")

/-- What one argument does to the options. -/
inductive Applies (o : Options) : String → Except OptionError Options → Prop where
  | emitSpace : Applies o "--emit-space" (.ok { o with settings.emitSpace := true })
  | memory : Applies o "--memory" (.ok { o with memory := true })
  | chunkSize {value : String} {size : Nat} (writes : WritesSize value.toList size) :
      Applies o ("--chunk-size=" ++ value) (.ok { o with settings.chunkSize := max 16 size })
  | offends {argument : String} {e : OptionError} (offends : Offends argument e.message) :
      Applies o argument (.error e)

/-- One argument is taken into account as it is written. -/
theorem Options.applies (o : Options) (argument : String) :
    Applies o argument (o.apply argument) := by
  unfold Options.apply
  split
  · rename_i h
    subst h
    exact .emitSpace
  split
  · rename_i h
    subst h
    exact .memory
  rename_i hemit hmemory
  split
  · rename_i hflag
    obtain ⟨value, rfl⟩ := givesSize_iff.1 hflag
    have hvalue : ("--chunk-size=" ++ value).toList.drop chunkSizeFlag.length = value.toList :=
      drop_toList_append _ _
    simp only [hvalue, String.ofList_toList]
    cases hread : parseSize? value.toList with
    | some size =>
      simp only [Settings.withChunkSize, Nat.max_comm size]
      exact .chunkSize (parseSize?_eq_some_iff.1 hread)
    | none =>
      refine .offends (.chunkSize fun size hwrites => ?_)
      rw [parseSize?_eq_some_iff.2 hwrites] at hread
      cases hread
  · rename_i hflag
    refine .offends (.unknown hemit hmemory fun value hvalue => hflag ?_)
    exact givesSize_iff.2 ⟨value, hvalue⟩

/-- No argument is both understood and reported. -/
theorem Understood.not_offends {argument message : String} (h : Understood argument) :
    ¬ Offends argument message := by
  intro hoffends
  cases hoffends with
  | @chunkSize value hnone =>
    generalize hargument : "--chunk-size=" ++ value = argument at h
    cases h with
    | emitSpace => exact absurd (givesSize_iff.2 ⟨value, hargument.symm⟩) (by decide)
    | memory => exact absurd (givesSize_iff.2 ⟨value, hargument.symm⟩) (by decide)
    | chunkSize hwrites =>
      rw [String.append_right_inj] at hargument
      exact hnone _ (hargument ▸ hwrites)
  | unknown hemit hmemory hsize =>
    cases h with
    | emitSpace => exact hemit rfl
    | memory => exact hmemory rfl
    | chunkSize _ => exact hsize _ rfl

/-! ## A list of arguments -/

/-- The chunk size that the last size among the arguments gives, or without one the size `base` that was
in force before. -/
def LastSize (base : Nat) (arguments : List String) (chosen : Nat) : Prop :=
  match (arguments.filter givesSize).getLast? with
  | none => chosen = base
  | some argument => ∃ value size, argument = "--chunk-size=" ++ value ∧
      WritesSize value.toList size ∧ chosen = max 16 size

theorem LastSize.append {base middle chosen : Nat} {earlier later : List String}
    (h : LastSize base earlier middle) (h' : LastSize middle later chosen) :
    LastSize base (earlier ++ later) chosen := by
  unfold LastSize at h h' ⊢
  rw [List.filter_append, List.getLast?_append]
  cases hlast : (later.filter givesSize).getLast? with
  | none =>
    rw [hlast] at h'
    rw [h', Option.none_or]
    exact h
  | some argument =>
    rw [hlast] at h'
    exact h'

/-- Which sizes are given, and in which order, decides what is chosen. -/
theorem LastSize.unique {base chosen chosen' : Nat} {arguments others : List String}
    (h : LastSize base arguments chosen) (h' : LastSize base others chosen')
    (hsizes : others.filter givesSize = arguments.filter givesSize) : chosen' = chosen := by
  unfold LastSize at h h'
  rw [hsizes] at h'
  split at h
  · rename_i hlast
    rw [hlast] at h'
    exact h'.trans h.symm
  · rename_i argument hlast
    rw [hlast] at h'
    obtain ⟨value, size, hvalue, hwrites, rfl⟩ := h
    obtain ⟨value', size', hvalue', hwrites', rfl⟩ := h'
    obtain rfl : value = value' := (String.append_right_inj _).1 (hvalue.symm.trans hvalue')
    rw [hwrites.unique hwrites']

/-- What a list of arguments changes: it puts in force what it names, and takes nothing back but an
earlier chunk size. -/
structure Sets (arguments : List String) (before after : Options) : Prop where
  emitSpace : after.settings.emitSpace = true ↔
    before.settings.emitSpace = true ∨ "--emit-space" ∈ arguments
  memory : after.memory = true ↔ before.memory = true ∨ "--memory" ∈ arguments
  chunkSize : LastSize before.settings.chunkSize arguments after.settings.chunkSize

theorem Sets.nil (o : Options) : Sets [] o o := by
  constructor <;> simp [LastSize]

theorem Sets.append {earlier later : List String} {o o' o'' : Options} (h : Sets earlier o o')
    (h' : Sets later o' o'') : Sets (earlier ++ later) o o'' where
  emitSpace := by rw [h'.emitSpace, h.emitSpace, List.mem_append, or_assoc]
  memory := by rw [h'.memory, h.memory, List.mem_append, or_assoc]
  chunkSize := h.chunkSize.append h'.chunkSize

/-- An argument that is taken into account is understood, and sets what it names. -/
theorem Applies.sets {o o' : Options} {argument : String} (h : Applies o argument (.ok o')) :
    Understood argument ∧ Sets [argument] o o' := by
  cases h with
  | emitSpace =>
    have hsize : givesSize "--emit-space" = false := by decide
    exact ⟨.emitSpace, by simp, by simp, by simp [LastSize, hsize]⟩
  | memory =>
    have hsize : givesSize "--memory" = false := by decide
    exact ⟨.memory, by simp, by simp, by simp [LastSize, hsize]⟩
  | @chunkSize value size hwrites =>
    have hsize : givesSize ("--chunk-size=" ++ value) = true := givesSize_iff.2 ⟨value, rfl⟩
    have hother : ∀ flag, givesSize flag = false → ¬ flag = "--chunk-size=" ++ value := by
      rintro flag hflag rfl
      rw [hsize] at hflag
      cases hflag
    refine ⟨.chunkSize hwrites, ?_, ?_, ?_⟩
    · simp [hother "--emit-space" (by decide)]
    · simp [hother "--memory" (by decide)]
    · simp only [LastSize, List.filter_cons_of_pos hsize, List.filter_nil, List.getLast?_singleton]
      exact ⟨value, size, rfl, hwrites, rfl⟩

/-- The message is about the first argument that is not understood. -/
def FirstOffends (arguments : List String) (message : String) : Prop :=
  ∃ earlier argument later, arguments = earlier ++ argument :: later ∧
    (∀ a ∈ earlier, Understood a) ∧ Offends argument message

/-- What a list of arguments does to the options. -/
theorem Options.foldlM_apply_cases (arguments : List String) (o : Options) :
    (∃ o', arguments.foldlM apply o = .ok o' ∧ (∀ a ∈ arguments, Understood a) ∧
      Sets arguments o o') ∨
    ∃ e, arguments.foldlM apply o = .error e ∧ FirstOffends arguments e.message := by
  induction arguments generalizing o with
  | nil => exact .inl ⟨o, rfl, by simp, Sets.nil o⟩
  | cons argument later ih =>
    rw [List.foldlM_cons]
    have happly := o.applies argument
    cases hone : o.apply argument with
    | error e =>
      rw [hone] at happly
      cases happly with
      | offends hoffends => exact .inr ⟨e, rfl, [], argument, later, rfl, by simp, hoffends⟩
    | ok o' =>
      rw [hone] at happly
      obtain ⟨hunderstood, hsets⟩ := happly.sets
      -- The rest is taken from here on, and an argument that it reports is the first of all.
      obtain ⟨o'', hrest, hall, hmore⟩ | ⟨e, hrest, earlier, offender, rest, rfl, hall, hoffends⟩ :=
        ih o'
      · exact .inl ⟨o'', hrest, List.forall_mem_cons.2 ⟨hunderstood, hall⟩, hsets.append hmore⟩
      · exact .inr ⟨e, hrest, argument :: earlier, offender, rest, rfl,
          List.forall_mem_cons.2 ⟨hunderstood, hall⟩, hoffends⟩

theorem Options.parse_ok {arguments : List String} {o : Options} (h : parse arguments = .ok o) :
    (∀ a ∈ arguments, Understood a) ∧ Sets arguments default o := by
  obtain ⟨o', hparse, hall⟩ | ⟨e, hparse, _⟩ := foldlM_apply_cases arguments default
  · obtain rfl : o = o' := Except.ok.inj (h.symm.trans hparse)
    exact hall
  · cases h.symm.trans hparse

theorem Options.parse_error {arguments : List String} {e : OptionError}
    (h : parse arguments = .error e) : FirstOffends arguments e.message := by
  obtain ⟨o, hparse, _⟩ | ⟨e', hparse, hfirst⟩ := foldlM_apply_cases arguments default
  · cases h.symm.trans hparse
  · obtain rfl : e = e' := Except.error.inj (h.symm.trans hparse)
    exact hfirst

theorem Options.parse_of_understood {arguments : List String}
    (h : ∀ a ∈ arguments, Understood a) : ∃ o, parse arguments = .ok o := by
  cases hparse : parse arguments with
  | ok o => exact ⟨o, rfl⟩
  | error e =>
    obtain ⟨earlier, argument, later, rfl, _, hoffends⟩ := parse_error hparse
    exact absurd hoffends (h argument (by simp)).not_offends

/-- Options that the same arguments set from the same beginning, in an order that keeps the sizes in
theirs, are equal. -/
theorem Sets.eq_of_perm {arguments others : List String} {before o o' : Options}
    (h : Sets arguments before o) (h' : Sets others before o') (hperm : others.Perm arguments)
    (hsizes : others.filter givesSize = arguments.filter givesSize) : o' = o := by
  obtain ⟨⟨emitSpace, chunkSize⟩, memory⟩ := o
  obtain ⟨⟨emitSpace', chunkSize'⟩, memory'⟩ := o'
  obtain rfl : chunkSize' = chunkSize := h.chunkSize.unique h'.chunkSize hsizes
  obtain rfl : emitSpace' = emitSpace := by
    rw [Bool.eq_iff_iff, h'.emitSpace, h.emitSpace, hperm.mem_iff]
  obtain rfl : memory' = memory := by
    rw [Bool.eq_iff_iff, h'.memory, h.memory, hperm.mem_iff]
  rfl

/-- What the arguments of a command choose. -/
structure Options.Exact (arguments : List String) : Prop where
  /-- The arguments are taken if and only if each of them is understood. -/
  succeeds : (∃ o, parse arguments = .ok o) ↔ ∀ a ∈ arguments, Understood a
  /-- Blank runs are tokens if that is asked for anywhere. -/
  emitSpace : ∀ o, parse arguments = .ok o →
    (o.settings.emitSpace = true ↔ "--emit-space" ∈ arguments)
  /-- The file is read as a whole if that is asked for anywhere. -/
  memory : ∀ o, parse arguments = .ok o → (o.memory = true ↔ "--memory" ∈ arguments)
  /-- The last chunk size counts, raised to the least one. -/
  chunkSize : ∀ o, parse arguments = .ok o → LastSize 4096 arguments o.settings.chunkSize
  /-- Otherwise the first argument that is not understood is reported. -/
  fails : ∀ e, parse arguments = .error e → FirstOffends arguments e.message
  /-- The order counts between chunk sizes only. -/
  reordered : ∀ o others, parse arguments = .ok o → others.Perm arguments →
    others.filter givesSize = arguments.filter givesSize → parse others = .ok o

theorem Options.parse_exact (arguments : List String) : Options.Exact arguments where
  succeeds := ⟨fun ⟨_, h⟩ => (parse_ok h).1, parse_of_understood⟩
  emitSpace := by
    intro o h
    rw [(parse_ok h).2.emitSpace]
    simp [default, Settings.default]
  memory := by
    intro o h
    rw [(parse_ok h).2.memory]
    simp [default]
  chunkSize := fun o h => (parse_ok h).2.chunkSize
  fails := fun e => parse_error
  reordered := by
    intro o others h hperm hsizes
    obtain ⟨hall, hsets⟩ := parse_ok h
    obtain ⟨o', h'⟩ := parse_of_understood fun a ha => hall a (hperm.mem_iff.1 ha)
    rw [h', hsets.eq_of_perm (parse_ok h').2 hperm hsizes]

-- The last size counts even if an earlier one is larger, and a plus sign is no fault.
example : Options.parse ["--chunk-size=20", "--memory", "--chunk-size=+7"] =
    .ok ⟨⟨false, 16⟩, true⟩ := by decide +kernel

end Command

end Listfile
