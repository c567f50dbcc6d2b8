import DocComment.Proofs.Command.Arguments
import DocComment.Proofs.Command.Runs

/-!
# All or nothing

A run that gets a reply either ended early, and then it shows nothing and changes the
content of no file, or it succeeded, and then it complains about nothing and its
result is at one place (`endedEarly_or_succeeded`). Only an input path that is too
long to be followed leaves a run without a reply (`exists_error_iff`). So it is for
all runs of a sequence (`turns_endedEarly_or_succeeded`).
-/

namespace DocComment.Command

open Text

variable {session after : Session} {arguments : List String} {stdin : String} {options : Options}
  {reply : Reply}

/-! ## One run -/

/-- A run that ended early: nothing is shown, and no file has changed. -/
structure EndedEarly (before : Session) (reply : Reply) (after : Session) : Prop where
  code : reply.code = 2
  output : reply.output = ""
  files : FileTree.SameFiles before.files after.files

/-- A result is at one place: what is shown and what has changed of the files. -/
def ResultAt (options : Options) (record : Record) (before : Session) (reply : Reply)
    (after : Session) : Prop :=
  match options.format, Tag.filled options.output with
  | .json, some path => reply.output = "" ∧
      FileChange.Written before.files after.files (Path.ofString path) (encodeUtf8 record.jsonChars)
  | .json, none => after.files = before.files ∧
      reply.output = String.ofList (replaceEmoji before.emoji record.jsonChars ++ ['\n'])
  | .table, _ => after.files = before.files ∧
      reply.output = String.ofList (record.tableChars before.toConsole)

/-- A run that succeeded: nothing is complained about, and the result of the comment is
delivered. -/
structure Succeeded (before : Session) (arguments : List String) (stdin : String)
    (reply : Reply) (after : Session) : Prop where
  code : reply.code = 0
  complaint : reply.complaint = ""
  result : ∃ options text record, Options.parse arguments = some options ∧
    comment before.files stdin (sourceOf options) = .ok text ∧
    (Record.ofComment text).result = .ok record ∧ ResultAt options record before reply after

/-- A result that goes to the screen is there, and the files are as before. -/
theorem resultAt_of_screen {record : Record} {text : List Char}
    (h : deliveryOf session.toConsole options record = .screen text)
    (houtput : reply.output = String.ofList text)
    (hfiles : after.files = session.files) : ResultAt options record session reply after := by
  unfold deliveryOf at h
  unfold ResultAt
  split at h
  · next hformat =>
    rw [hformat]
    exact ⟨hfiles, Delivery.screen.inj h ▸ houtput⟩
  · next hformat hplace =>
    rw [hformat, hplace]
    exact ⟨hfiles, Delivery.screen.inj h ▸ houtput⟩
  · cases h

/-- A result that goes to a file is there, and the screen shows nothing. -/
theorem resultAt_of_file {record : Record} {path : String} {text : List Char}
    (h : deliveryOf session.toConsole options record = .file path text)
    (houtput : reply.output = "")
    (hwritten : FileChange.Written session.files after.files (Path.ofString path)
      (encodeUtf8 text)) : ResultAt options record session reply after := by
  unfold deliveryOf at h
  unfold ResultAt
  split at h
  · cases h
  · cases h
  · next hformat hplace =>
    obtain ⟨rfl, rfl⟩ := Delivery.file.inj h
    rw [hformat, hplace]
    exact ⟨houtput, hwritten⟩

/-- A run that gets a reply either ended early or succeeded. -/
theorem endedEarly_or_succeeded (h : run session arguments stdin = .ok (reply, after)) :
    EndedEarly session reply after ∨ Succeeded session arguments stdin reply after := by
  have hreply : (run session arguments stdin).map Seen.ofReply =
      .ok ⟨reply.code, reply.output, reply.complaint, after⟩ := by
    rw [h]
    rfl
  -- one case for each way a run can end; what is left unsaid of the reply is its notices
  cases hparse : Options.parse arguments with
  | none =>
    have hseen := seen_run session arguments stdin
    rw [hreply, hparse] at hseen
    obtain ⟨hcode, houtput, -, rfl⟩ := Seen.mk.inj (Except.ok.inj hseen)
    exact .inl ⟨hcode, houtput, .refl _⟩
  | some options =>
    obtain ⟨ended, hends, hseen⟩ := exists_ends session hparse stdin
    rw [hreply] at hseen
    cases hends with
    | unprepared hprepared =>
      rcases prepared_error hprepared with ⟨notice, complaint, rfl⟩ | ⟨-, fault, rfl⟩
      · obtain ⟨hcode, houtput, -, rfl⟩ := Seen.mk.inj (Except.ok.inj hseen)
        exact .inl ⟨hcode, houtput, .refl _⟩
      · cases hseen
    | shown hprepared =>
      obtain ⟨text, record, htext, hrecord, hdelivery⟩ := prepared_eq_ok_iff.mp hprepared
      obtain ⟨hcode, houtput, hcomplaint, rfl⟩ := Seen.mk.inj (Except.ok.inj hseen)
      exact .inr ⟨hcode, hcomplaint, options, text, record, hparse, htext, hrecord,
        resultAt_of_screen hdelivery houtput rfl⟩
    | written hprepared hwritten =>
      obtain ⟨text, record, htext, hrecord, hdelivery⟩ := prepared_eq_ok_iff.mp hprepared
      obtain ⟨hcode, houtput, hcomplaint, rfl⟩ := Seen.mk.inj (Except.ok.inj hseen)
      exact .inr ⟨hcode, hcomplaint, options, text, record, hparse, htext, hrecord,
        resultAt_of_file hdelivery houtput hwritten⟩
    | unwritten fault hprepared hsame _ =>
      obtain ⟨hcode, houtput, -, rfl⟩ := Seen.mk.inj (Except.ok.inj hseen)
      exact .inl ⟨hcode, houtput, hsame⟩
    | nullInPath hprepared hnull => cases hseen

/-- No path of the options holds a null character. -/
def NullFree (arguments : List String) : Prop :=
  ∀ options ∈ Options.parse arguments, (∀ path ∈ options.input, '\x00' ∉ path.toList) ∧
    ∀ path ∈ options.output, '\x00' ∉ path.toList

instance : Decidable (NullFree arguments) :=
  inferInstanceAs (Decidable (∀ options ∈ Options.parse arguments,
    (∀ path ∈ options.input, '\x00' ∉ path.toList) ∧
      ∀ path ∈ options.output, '\x00' ∉ path.toList))

/-- A result goes to a file only if the options name it. -/
theorem mem_output_of_deliveryOf {record : Record} {path : String} {text : List Char}
    (h : deliveryOf session.toConsole options record = .file path text) :
    path ∈ options.output := by
  unfold deliveryOf at h
  split at h
  · cases h
  · cases h
  · next hplace =>
    obtain ⟨rfl, -⟩ := Delivery.file.inj h
    exact (Option.filter_eq_some_iff.mp hplace).1

/-- A comment is taken from a file only if the options name it. -/
theorem mem_input_of_sourceOf {path : String} (h : sourceOf options = .file path) :
    path ∈ options.input := by
  unfold sourceOf at h
  split at h
  · cases h
  · next hpath =>
    obtain rfl := Source.file.inj h
    exact (Option.filter_eq_some_iff.mp hpath).1
  · cases h

/-- The input path is too long to be followed. -/
def InputTooLong (before : Session) (arguments : List String) : Prop :=
  ∃ options path, Options.parse arguments = some options ∧ sourceOf options = .file path ∧
    before.files.follow (Path.ofString path) = .error .nameTooLong

theorem exists_error_map_iff {ε α β : Type} {x : Except ε α} {f : α → β} :
    (∃ e, x.map f = .error e) ↔ ∃ e, x = .error e := by
  cases x with
  | error e => simp [Except.map]
  | ok a => simp [Except.map]

/-- A run gets no reply if and only if its input path is too long. -/
theorem exists_error_iff (h : NullFree arguments) :
    (∃ failure, run session arguments stdin = .error failure) ↔
      InputTooLong session arguments := by
  rw [← exists_error_map_iff (f := Seen.ofReply), seen_run]
  cases hparse : Options.parse arguments with
  | none =>
    refine iff_of_false nofun ?_
    rintro ⟨options, path, hoptions, -⟩
    rw [hparse] at hoptions
    cases hoptions
  | some options =>
    have hends := ends_carryOut session stdin options
    constructor
    · rintro ⟨failure, hfailure⟩
      simp only at hfailure
      -- of the ways to end only two leave no reply, and a null character is excluded
      generalize (carryOut session stdin options).value = ended at hends hfailure
      cases hends with
      | unprepared hprepared =>
        rcases prepared_error hprepared with ⟨notice, complaint, rfl⟩ | ⟨hlong, -⟩
        · cases hfailure
        · obtain ⟨path, hsource, -, hlong⟩ := hlong
          exact ⟨options, path, hparse, hsource, hlong⟩
      | shown => cases hfailure
      | written => cases hfailure
      | unwritten => cases hfailure
      | nullInPath hprepared hnull =>
        obtain ⟨text, record, -, -, hdelivery⟩ := prepared_eq_ok_iff.mp hprepared
        exact absurd hnull ((h options hparse).2 _ (mem_output_of_deliveryOf hdelivery))
    · rintro ⟨_, path, hoptions, hsource, hlong⟩
      obtain rfl := Option.some.inj (hparse.symm.trans hoptions)
      have hnull := (h options hparse).1 path (mem_input_of_sourceOf hsource)
      have hreads : ReadsTooLongPath session.files options :=
        ⟨path, hsource, Path.notMem_text_ofString hnull (by decide) (by decide), hlong⟩
      obtain ⟨fault, hprepared⟩ := prepared_of_readsTooLongPath hreads stdin
      refine ⟨.badPath fault, ?_⟩
      simp only [value_carryOut, hprepared]
      rfl

/-! ## Sequences of runs -/

/-- One call of the command. -/
structure Call where
  arguments : List String
  stdin : String

/-- A call, what it started with, and what became of it. -/
structure Turn where
  before : Session
  call : Call
  outcome : Except Failure (Reply × Session)

/-- The runs of several calls. Each one starts with what the one before it left; a run
without a reply is the last one. -/
def turns (session : Session) : List Call → List Turn
  | [] => []
  | call :: calls =>
    let outcome := run session call.arguments call.stdin
    ⟨session, call, outcome⟩ ::
      match outcome with
      | .ok (_, after) => turns after calls
      | .error _ => []

/-- The first turn of a sequence is the run of its first call. -/
theorem mem_turns_head (session : Session) (call : Call) (calls : List Call) :
    ⟨session, call, run session call.arguments call.stdin⟩ ∈ turns session (call :: calls) := by
  rw [turns]
  exact List.mem_cons_self

/-- Each turn of a sequence is the run of one of its calls. -/
theorem run_of_mem_turns {calls : List Call} {turn : Turn} (h : turn ∈ turns session calls) :
    turn.call ∈ calls ∧ turn.outcome = run turn.before turn.call.arguments turn.call.stdin := by
  induction calls generalizing session with
  | nil => cases h
  | cons call calls ih =>
    unfold turns at h
    rcases List.mem_cons.mp h with rfl | h
    · exact ⟨List.mem_cons_self, rfl⟩
    · split at h
      · obtain ⟨hcall, hrun⟩ := ih h
        exact ⟨List.mem_cons_of_mem call hcall, hrun⟩
      · cases h

/-- Each run of a sequence is all or nothing: if it gets a reply, it either ended early or
succeeded. It gets none if and only if its input path is too long. -/
theorem turns_endedEarly_or_succeeded (session : Session) (calls : List Call)
    (h : ∀ call ∈ calls, NullFree call.arguments) :
    ∀ turn ∈ turns session calls,
      ((∃ failure, turn.outcome = .error failure) ↔
        InputTooLong turn.before turn.call.arguments) ∧
      ∀ reply after, turn.outcome = .ok (reply, after) →
        EndedEarly turn.before reply after ∨
          Succeeded turn.before turn.call.arguments turn.call.stdin reply after := by
  intro turn hturn
  obtain ⟨hcall, hrun⟩ := run_of_mem_turns hturn
  rw [hrun]
  exact ⟨exists_error_iff (h turn.call hcall), fun reply after => endedEarly_or_succeeded⟩

/-- A record is written to a file, which is then read; but no file can be written below
it. -/
def sampleCalls : List Call :=
  [⟨["parse", "--text=@param \x7bA\x7d a", "--format=json", "--output", "record"], ""⟩,
    ⟨["parse", "--input", "record", "--format=json", "--output=record/more"], ""⟩,
    ⟨["parse", "--input", "record"], ""⟩]

/-- The runs of the sample are all or nothing. -/
theorem turns_endedEarly_or_succeeded_sample :
    (∀ call ∈ sampleCalls, NullFree call.arguments) ∧
      ∀ turn ∈ turns .fresh sampleCalls,
        ((∃ failure, turn.outcome = .error failure) ↔
          InputTooLong turn.before turn.call.arguments) ∧
        ∀ reply after, turn.outcome = .ok (reply, after) →
          EndedEarly turn.before reply after ∨
            Succeeded turn.before turn.call.arguments turn.call.stdin reply after := by
  have hnull : ∀ call ∈ sampleCalls, NullFree call.arguments := by
    decide +kernel
  exact ⟨hnull, turns_endedEarly_or_succeeded .fresh sampleCalls hnull⟩

/-- A name with one character too many. -/
def longName : List Char :=
  List.replicate (FileTree.maxName + 1) 'a'

theorem notMem_longName {c : Char} (h : c ≠ 'a') : c ∉ longName :=
  fun hc => h (List.eq_of_mem_replicate hc)

/-- What a command line asks for that names the long name as its input. -/
theorem parse_longName : Options.parse ["parse", "--input=" ++ String.ofList longName] =
    some { input := some (String.ofList longName) } := by
  have hword : ArgumentWord.read ("--input=" ++ String.ofList longName) =
      .option .input (some (String.ofList longName)) := ArgumentWord.read_attached .input _
  rw [Options.parse_cons, Options.readFrom_attached hword]
  rfl

/-- The long name is too long wherever a run starts. -/
theorem inputTooLong_longName (session : Session) :
    InputTooLong session ["parse", "--input=" ++ String.ofList longName] := by
  have hne : longName ≠ [] := List.cons_ne_nil 'a' _
  have hlength : FileTree.maxName < FileTree.byteLength (String.ofList longName) := by
    rw [FileTree.byteLength, String.toList_ofList]
    decide +kernel
  have hparse := parse_longName
  have hplain : '/' ∉ longName ∧ longName ≠ ['.'] := by
    refine ⟨notMem_longName (by decide), fun h => ?_⟩
    exact notMem_longName (by decide) (h ▸ List.mem_singleton_self '.')
  -- the name is put aside, so that nothing computes with its characters
  generalize longName = name at hne hlength hparse hplain ⊢
  have hempty : String.ofList name ≠ "" :=
    fun h => hne (by simpa using congrArg String.toList h)
  have hfilled : Tag.filled (some (String.ofList name)) = some (String.ofList name) := by
    simp [Tag.filled, hempty]
  refine ⟨_, String.ofList name, hparse, ?_, ?_⟩
  · simp only [sourceOf, hfilled]
  · rw [Path.ofString_plain hplain.1 hne hplain.2, FileTree.follow]
    split
    · rfl
    · simp only [FileTree.walk, if_pos hlength]

theorem nullFree_longName : NullFree ["parse", "--input=" ++ String.ofList longName] := by
  have hnull : '\x00' ∉ longName := notMem_longName (by decide)
  rw [NullFree, parse_longName]
  generalize longName = name at hnull ⊢
  rintro _ ⟨⟩
  refine ⟨?_, nofun⟩
  rintro _ ⟨⟩
  rwa [String.toList_ofList]

/-- A run that looks for a file with too long a name gets no reply. -/
theorem not_turns_reply :
    ¬ ∀ (session : Session) (calls : List Call), (∀ call ∈ calls, NullFree call.arguments) →
      ∀ turn ∈ turns session calls, ∃ reply after, turn.outcome = .ok (reply, after) ∧
        (reply.code = 0 ∨ reply.code = 2) := by
  intro h
  obtain ⟨arguments, hnull, hlong⟩ : ∃ arguments,
      NullFree arguments ∧ InputTooLong .fresh arguments :=
    ⟨_, nullFree_longName, inputTooLong_longName _⟩
  obtain ⟨failure, hlost⟩ : ∃ failure, run .fresh arguments "" = .error failure :=
    (exists_error_iff hnull).mpr hlong
  obtain ⟨reply, after, hok, -⟩ := h .fresh [⟨arguments, ""⟩]
    (List.forall_mem_singleton.mpr hnull) _ (mem_turns_head _ _ _)
  exact absurd (hlost.symm.trans hok) nofun

end DocComment.Command
