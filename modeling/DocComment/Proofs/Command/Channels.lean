import DocComment.Proofs.Command.Arguments
import DocComment.Proofs.Command.Runs
import DocComment.Proofs.Newlines
import DocComment.Proofs.Text.Utf8

/-!
# Channels

A comment can be given on the command line, on the standard input or in a file. Only
in a file are its newlines made line feeds, and that changes nothing
(`Record.ofComment_unifyNewlines`); so what is seen of a run is the same for all
three (`seen_run_channels`).
-/

namespace DocComment.Command

open Text Options

variable {session : Session} {options later : Options} {before behind : List String}
  {comment stdin path : String} {files : FileTree}

/-! ## Comments that say the same -/

/-- Comments with the same record are interpreted in the same way. -/
theorem interpret_congr {other : String} (h : Record.ofComment comment = Record.ofComment other)
    (console : Console) (options : Options) :
    interpret console options comment = interpret console options other := by
  unfold interpret
  rw [h]

/-- Where the comment comes from makes no difference to what is done with it. -/
theorem interpret_withInput (console : Console) (options : Options) (input text : Option String)
    (comment : String) :
    interpret console (options.withInput input text) comment = interpret console options comment :=
  rfl

/-! ## Comments of files -/

/-- A path that leads to a file is not empty: the empty path leads to a directory. -/
theorem ne_empty_of_follow {location : List String} {bytes : List UInt8}
    (h : files.follow (Path.ofString path) = .ok (.file location bytes)) : path ≠ "" := by
  rintro rfl
  have hhere : files.follow (Path.ofString "") = .ok (.directory files.here) := by
    have hpath : Path.ofString "" = ⟨"", []⟩ := by decide +kernel
    rw [hpath]
    rfl
  rw [hhere] at h
  cases h

/-- A file with the bytes of a text holds a comment that says what the text says. -/
theorem exists_readComment (hnull : '\x00' ∉ path.toList) {location : List String}
    (h : files.follow (Path.ofString path) =
      .ok (.file location (encodeUtf8 comment.toList))) :
    ∃ found, readComment files (Path.ofString path) = .ok found ∧
      Record.ofComment found = Record.ofComment comment := by
  have hpath : '\x00' ∉ (Path.ofString path).text.toList :=
    Path.notMem_text_ofString hnull (by decide) (by decide)
  refine ⟨String.ofList (unifyNewlines comment.toList), ?_, Record.ofComment_unifyNewlines comment⟩
  rw [readComment, if_neg (by simpa using hpath)]
  simp only [FileTree.exists?, h, FileTree.read_of_follow h, commentOfBytes,
    decodeUtf8_encodeUtf8]

/-! ## Runs that take the same comment -/

/-- What is seen of a run on a comment whose words, as far as they are understood,
leave some options. -/
def seenOn (session : Session) (comment : String) : Option Options → Except Failure Seen
  | none => .ok ⟨failureCode, "", "", session⟩
  | some options => seenOf session options
      (match (interpret session.toConsole options comment).result with
        | .error failure => (.error failure, session.files)
        | .ok delivery => deliver session.files delivery)

/-- All that is seen of a run follows from what its comment says and from the options
that are not about the input. -/
theorem seen_run_eq_seenOn {arguments : List String} {found : Option Options}
    {input text : Option String}
    (hparse : Options.parse arguments = found.map (·.withInput input text))
    (hcomment : ∀ options ∈ found, ∃ taken,
      Command.comment session.files stdin (sourceOf (options.withInput input text)) = .ok taken ∧
        Record.ofComment taken = Record.ofComment comment) :
    (run session arguments stdin).map Seen.ofReply = seenOn session comment found := by
  rw [seen_run, hparse]
  cases found with
  | none => rfl
  | some options =>
    obtain ⟨taken, htaken, hsame⟩ := hcomment options rfl
    have hprepared : prepared session stdin (options.withInput input text) =
        (interpret session.toConsole options comment).result := by
      rw [prepared_of_ok htaken, interpret_withInput, interpret_congr hsame]
    simp only [Option.map_some, value_carryOut, hprepared]
    rfl

/-- Behind options that set no input, a text on the command line becomes the text. -/
theorem readFrom_text (h : later.withInput none none = later) (comment : String)
    (words : List String) :
    readFrom later (("--text=" ++ comment) :: words) =
      readFrom (later.withInput none (some comment)) words := by
  have hword : ArgumentWord.read ("--text=" ++ comment) = .option .text (some comment) :=
    ArgumentWord.read_attached .text comment
  have hset : later.set .text comment = some (later.withInput none (some comment)) := by
    rw [← h]
    rfl
  rw [readFrom_attached hword, hset, Option.bind_some]

/-- An attached input path is set, if none was set before. -/
theorem readFrom_input (h : later.withInput none none = later) (path : String)
    (words : List String) :
    readFrom later (("--input=" ++ path) :: words) =
      readFrom (later.withInput (some path) none) words := by
  have hword : ArgumentWord.read ("--input=" ++ path) = .option .input (some path) :=
    ArgumentWord.read_attached .input path
  have hset : later.set .input path = some (later.withInput (some path) none) := by
    rw [← h]
    rfl
  rw [readFrom_attached hword, hset, Option.bind_some]

/-- A run shows and leaves the same whether its comment stands on the command line, is
the standard input or stands in a file, for all other words of the command line. -/
theorem seen_run_channels (session : Session) (before behind : List String)
    (comment path stdin : String) (location : List String)
    (hwhole : (readFrom {} before).isSome) (hbefore : SetNoInput before)
    (hbehind : SetNoInput behind) (hnull : '\x00' ∉ path.toList)
    (hfile : session.files.follow (Path.ofString path) =
      .ok (.file location (encodeUtf8 comment.toList))) :
    (run session ("parse" :: (before ++ ("--text=" ++ comment) :: behind)) stdin).map
        Seen.ofReply =
      (run session ("parse" :: (before ++ behind)) comment).map Seen.ofReply ∧
    (run session ("parse" :: (before ++ ("--input=" ++ path) :: behind)) stdin).map
        Seen.ofReply =
      (run session ("parse" :: (before ++ behind)) comment).map Seen.ofReply := by
  obtain ⟨later, hlater⟩ := Option.isSome_iff_exists.mp hwhole
  have hnone := withInput_none_of_readFrom hbefore hlater
  have htext : readFrom {} (before ++ ("--text=" ++ comment) :: behind) =
      (readFrom later behind).map (·.withInput none (some comment)) := by
    rw [readFrom_append hlater, readFrom_text hnone, readFrom_withInput hbehind]
  have hinput : readFrom {} (before ++ ("--input=" ++ path) :: behind) =
      (readFrom later behind).map (·.withInput (some path) none) := by
    rw [readFrom_append hlater, readFrom_input hnone, readFrom_withInput hbehind]
  have hstdin : readFrom {} (before ++ behind) =
      (readFrom later behind).map (·.withInput none none) := by
    rw [readFrom_append hlater, ← readFrom_withInput hbehind, hnone]
  -- all three are the run on the comment that is left when the options have been read
  have hfilled : Tag.filled (some path) = some path := by
    simp [Tag.filled, ne_empty_of_follow hfile]
  obtain ⟨found, hfound, hsame⟩ := exists_readComment hnull hfile
  have hread : (run session ("parse" :: (before ++ behind)) comment).map Seen.ofReply =
      seenOn session comment (readFrom later behind) :=
    seen_run_eq_seenOn (parse_of_readFrom hstdin rfl) fun options _ => ⟨comment, rfl, rfl⟩
  rw [hread]
  constructor
  · exact seen_run_eq_seenOn (parse_of_readFrom htext rfl) fun options _ => ⟨comment, rfl, rfl⟩
  · refine seen_run_eq_seenOn (parse_of_readFrom hinput rfl) fun options _ => ⟨found, ?_, hsame⟩
    have hsource : sourceOf (options.withInput (some path) none) = .file path := by
      simp only [sourceOf, withInput, hfilled]
    rw [hsource]
    exact hfound

/-- A comment in which all three newlines stand. -/
def sampleComment : String := "Adds.\r\n@param \x7bA\x7d a\r@returns \x7bB\x7d\n"

/-- The sample stands in a file. -/
def sampleSession : Session :=
  { files := FileTree.fresh.put ["tmp", "work", "in"] (.file (encodeUtf8 sampleComment.toList)) }

theorem follow_sampleSession : sampleSession.files.follow (Path.ofString "in") =
    .ok (.file ["tmp", "work", "in"] (encodeUtf8 sampleComment.toList)) := by
  have hpath : Path.ofString "in" = ⟨"", ["in"]⟩ := by decide +kernel
  have hvacant : FileTree.fresh.follow ⟨"", ["in"]⟩ = .ok (.vacant ["tmp", "work", "in"]) := by
    have hlength : ¬ FileTree.maxPath < FileTree.byteLength (Path.text ⟨"", ["in"]⟩) := by
      decide +kernel
    have hname : ¬ FileTree.maxName < FileTree.byteLength "in" := by decide +kernel
    rw [FileTree.follow, if_neg hlength]
    simp only [FileTree.walk, if_neg hname]
    rfl
  rw [hpath]
  exact FileTree.follow_put hvacant rfl _

/-- The runs on the sample are the same. -/
theorem seen_run_channels_sample :
    ((readFrom {} ["--format=json"]).isSome ∧ SetNoInput ["--format=json"] ∧
      SetNoInput ["--output", "record"] ∧ '\x00' ∉ "in".toList ∧
      sampleSession.files.follow (Path.ofString "in") =
        .ok (.file ["tmp", "work", "in"] (encodeUtf8 sampleComment.toList))) ∧
    (run sampleSession ["parse", "--format=json", "--text=" ++ sampleComment, "--output", "record"]
        "").map Seen.ofReply =
      (run sampleSession ["parse", "--format=json", "--output", "record"] sampleComment).map
        Seen.ofReply ∧
    (run sampleSession ["parse", "--format=json", "--input=" ++ "in", "--output", "record"] "").map
        Seen.ofReply =
      (run sampleSession ["parse", "--format=json", "--output", "record"] sampleComment).map
        Seen.ofReply := by
  have hwhole : (readFrom {} ["--format=json"]).isSome := by decide +kernel
  have hbefore : SetNoInput ["--format=json"] := by decide +kernel
  have hbehind : SetNoInput ["--output", "record"] := by decide +kernel
  have hnull : '\x00' ∉ "in".toList := by decide +kernel
  exact ⟨⟨hwhole, hbefore, hbehind, hnull, follow_sampleSession⟩,
    seen_run_channels sampleSession ["--format=json"] ["--output", "record"] sampleComment "in" ""
      ["tmp", "work", "in"] hwhole hbefore hbehind hnull follow_sampleSession⟩

end DocComment.Command
