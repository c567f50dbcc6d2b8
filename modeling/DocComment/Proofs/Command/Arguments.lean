import DocComment.Command.Options

/-!
# Words of a command line

An option whose value stands behind an equals sign is read as that option with that
value, whatever the value is (`read_attached`). Whole options can be read one part
after the other (`readFrom_append`). A change that makes no difference to each option can
be made before the words are read or behind them (`readFrom_map`): so words that set no
input have the same effect whatever the input is (`readFrom_withInput`), and the flag for
notices can be put in front of all words (`parse_verbose`).
-/

namespace DocComment

open Text

variable {options later : Options} {before words : List String} {word : String}

/-! ## Options with a value -/

namespace ArgumentWord

/-- The first equals sign ends the name of an option. -/
theorem splitAttached_append {written : List Char} (h : '=' ∉ written) (value : List Char) :
    splitAttached (written ++ '=' :: value) = (written, some (String.ofList value)) := by
  have hall : ∀ c ∈ written, (c != '=') = true := by
    intro c hc
    rw [bne_iff_ne]
    rintro rfl
    exact h hc
  rw [splitAttached, List.dropWhile_append_of_pos hall, List.takeWhile_append_of_pos hall]
  simp

/-- Each option is written in full as two hyphens and more, and its spelling stands for
no other one. -/
theorem exists_spelling (name : OptionName) :
    ∃ c cs, name.spelling.toList = '-' :: '-' :: c :: cs ∧ '=' ∉ name.spelling.toList ∧
      candidates name.spelling.toList = [name] := by
  cases name
  all_goals exact ⟨_, _, rfl, by decide, by decide⟩

/-- A value behind an equals sign belongs to the option in front of it. -/
theorem read_attached (name : OptionName) (value : String) :
    read (name.spelling ++ "=" ++ value) = .option name (some value) := by
  obtain ⟨c, cs, hspelling, hequals, hname⟩ := exists_spelling name
  have hword : (name.spelling ++ "=" ++ value).toList =
      name.spelling.toList ++ '=' :: value.toList := by
    simp [String.toList_append]
  have hsplit := splitAttached_append hequals value.toList
  rw [String.ofList_toList] at hsplit
  rw [hspelling] at hword hname hsplit
  unfold read
  rw [hword]
  simp only [List.cons_append] at hsplit ⊢
  simp only [hsplit, hname, List.isEmpty_cons, Bool.false_eq_true, ↓reduceIte]

end ArgumentWord

/-! ## Words in a row -/

namespace Options

theorem readFrom_verbose (h : ArgumentWord.read word = .option .verbose none)
    (options : Options) (words : List String) :
    readFrom options (word :: words) = readFrom { options with verbose := true } words := by
  rw [readFrom.eq_def]
  simp only [h]

theorem readFrom_attached {name : OptionName} {value : String}
    (h : ArgumentWord.read word = .option name (some value)) (options : Options)
    (words : List String) :
    readFrom options (word :: words) = (options.set name value).bind (readFrom · words) := by
  rw [readFrom.eq_def]
  simp only [h]
  rfl

theorem readFrom_next {name : OptionName} {value : String} (hname : name ≠ .verbose)
    (h : ArgumentWord.read word = .option name none) (hvalue : ArgumentWord.read value = .value)
    (options : Options) (words : List String) :
    readFrom options (word :: value :: words) =
      (options.set name value).bind (readFrom · words) := by
  rw [readFrom.eq_def]
  simp only [h]
  rw [if_pos hvalue]
  rfl

/-- Behind whole options the words are read on top of them. -/
theorem readFrom_append (h : readFrom options before = some later) (words : List String) :
    readFrom options (before ++ words) = readFrom later words := by
  fun_induction readFrom options before with
  | case1 options =>
    obtain rfl := Option.some.inj h
    rfl
  | case2 options word before hword ih => rw [List.cons_append, readFrom_verbose hword, ih h]
  | case3 options word before name value hword ih =>
    obtain ⟨next, hset, hnext⟩ := Option.bind_eq_some_iff.mp h
    rw [List.cons_append, readFrom_attached hword, hset, Option.bind_some, ih next hnext]
  | case4 options word name hname hword value before hvalue ih =>
    obtain ⟨next, hset, hnext⟩ := Option.bind_eq_some_iff.mp h
    rw [List.cons_append, List.cons_append, readFrom_next hname hword hvalue, hset,
      Option.bind_some, ih next hnext]
  | case5 => cases h
  | case6 => cases h
  | case7 => cases h

/-! ## Changes that make no difference to the words -/

section

variable {alter : Options → Options} {name : OptionName} {value : String}

/-- A change of the options that makes no difference to a value and to the words behind
it makes none to both. -/
theorem bind_map
    (hset : ∀ options : Options,
      (alter options).set name value = (options.set name value).map alter)
    (ih : ∀ next : Options, readFrom (alter next) words = (readFrom next words).map alter)
    (options : Options) :
    ((alter options).set name value).bind (readFrom · words) =
      ((options.set name value).bind (readFrom · words)).map alter := by
  rw [hset]
  cases options.set name value with
  | none => rfl
  | some next => exact ih next

/-- A change of the options that makes no difference to the flag and to each option that
is set can be made before the words are read or behind them. -/
theorem readFrom_map
    (hverbose : ∀ options : Options,
      alter { options with verbose := true } = { alter options with verbose := true })
    (hset : ∀ word ∈ words, ∀ name attached, ArgumentWord.read word = .option name attached →
      ∀ (options : Options) (value : String),
        (alter options).set name value = (options.set name value).map alter)
    (options : Options) :
    readFrom (alter options) words = (readFrom options words).map alter := by
  fun_induction readFrom options words with
  | case1 options => rfl
  | case2 options word words hword ih =>
    rw [readFrom_verbose hword, ← hverbose]
    exact ih fun w hw => hset w (List.mem_cons_of_mem word hw)
  | case3 options word words name value hword ih =>
    have hfirst := hset word List.mem_cons_self name _ hword
    rw [readFrom_attached hword]
    exact bind_map (hfirst · value)
      (fun next => ih next fun w hw => hset w (List.mem_cons_of_mem word hw)) options
  | case4 options word name hname hword value words hvalue ih =>
    have hfirst := hset word List.mem_cons_self name _ hword
    have hwords : ∀ w ∈ words, w ∈ word :: value :: words := fun w hw =>
      List.mem_cons_of_mem word (List.mem_cons_of_mem value hw)
    rw [readFrom_next hname hword hvalue]
    exact bind_map (hfirst · value) (fun next => ih next fun w hw => hset w (hwords w hw)) options
  | case5 options word name hname hword value words hvalue =>
    rw [readFrom.eq_def]
    simp [hword, hvalue]
  | case6 options word name hname hword =>
    rw [readFrom.eq_def]
    simp [hword]
  | case7 options word words hverbose' hattached hnext =>
    rw [readFrom.eq_def]
    rcases hword : ArgumentWord.read word with _ | ⟨name, _ | value⟩ | _
    · simp [hword]
    · exact absurd hword (hnext name)
    · exact absurd hword (hattached name value)
    · simp [hword]

end

/-! ## Words that set no input -/

/-- Whether a word is an option that says where the comment comes from. -/
def setsInput : ArgumentWord → Bool
  | .option .input _ | .option .text _ => true
  | _ => false

/-- No word is an option that says where the comment comes from. -/
def SetNoInput (words : List String) : Prop :=
  ∀ word ∈ words, setsInput (ArgumentWord.read word) = false

instance : Decidable (SetNoInput words) :=
  inferInstanceAs (Decidable (∀ word ∈ words, setsInput (ArgumentWord.read word) = false))

def withInput (options : Options) (input text : Option String) : Options :=
  { options with input, text }

/-- An option that is no input is set in the same way whatever the input is. -/
theorem set_withInput {name : OptionName} {attached : Option String}
    (h : setsInput (.option name attached) = false) (options : Options) (value : String)
    (input text : Option String) :
    (options.withInput input text).set name value =
      (options.set name value).map (·.withInput input text) := by
  cases name with
  | input => cases h
  | text => cases h
  | help => rfl
  | output => rfl
  | verbose => rfl
  | format =>
    unfold set
    split
    all_goals simp_all [withInput]

/-- Words that set no input leave it as it is, and it makes no difference to them. -/
theorem readFrom_withInput (h : SetNoInput words) (options : Options)
    (input text : Option String) :
    readFrom (options.withInput input text) words =
      (readFrom options words).map (·.withInput input text) := by
  refine @readFrom_map words (·.withInput input text) (fun _ => rfl) ?_ options
  intro word hword name attached hread options value
  have hsets := h word hword
  rw [hread] at hsets
  exact set_withInput hsets options value input text

/-- Whole options that set no input leave none. -/
theorem withInput_none_of_readFrom (hset : SetNoInput before)
    (h : readFrom {} before = some later) : later.withInput none none = later := by
  have hnone := readFrom_withInput hset {} none none
  have hempty : ({} : Options).withInput none none = {} := rfl
  rw [hempty, h] at hnone
  exact (Option.some.inj hnone).symm

theorem parse_cons (words : List String) :
    parse ("parse" :: words) = (readFrom {} words).bind fun options =>
      if options.input.isSome && options.text.isSome then none else some options :=
  rfl

/-- What a command line asks for whose words set at most one input. -/
theorem parse_of_readFrom {input text : Option String} {found : Option Options}
    (h : readFrom {} words = found.map (·.withInput input text))
    (hone : (input.isSome && text.isSome) = false) :
    parse ("parse" :: words) = found.map (·.withInput input text) := by
  rw [parse_cons, h]
  cases found with
  | none => rfl
  | some options => exact if_neg (by simpa [withInput] using hone)

/-! ## The flag -/

def loud (options : Options) : Options :=
  { options with verbose := true }

/-- Setting an option leaves the flag as it is. -/
theorem set_loud (options : Options) (name : OptionName) (value : String) :
    options.loud.set name value = (options.set name value).map loud := by
  cases name with
  | help => rfl
  | input => rfl
  | text => rfl
  | output => rfl
  | verbose => rfl
  | format =>
    unfold set
    split
    all_goals simp_all [loud]

/-- The flag right behind the command sets the flag, and makes no other difference to
what the words ask for: they are understood with it if and only if they are understood
without it. -/
theorem parse_verbose (words : List String) :
    parse ("parse" :: "--verbose" :: words) = (parse ("parse" :: words)).map loud := by
  have hword : ArgumentWord.read "--verbose" = .option .verbose none := by decide +kernel
  have hwords : readFrom (loud {}) words = (readFrom {} words).map loud :=
    readFrom_map (fun _ => rfl) (fun _ _ name _ _ options value => set_loud options name value) {}
  rw [parse_cons, parse_cons, readFrom_verbose hword]
  change (readFrom (loud {}) words).bind _ = _
  rw [hwords]
  cases readFrom {} words with
  | none => rfl
  | some options =>
    simp only [Option.map_some, Option.bind_some, loud]
    split
    · rfl
    · rfl

end Options

end DocComment
