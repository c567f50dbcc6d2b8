import DocComment.Proofs.Command.Runs
import DocComment.Proofs.Json.Records
import DocComment.Proofs.Text.Emoji
import DocComment.Proofs.Text.Utf8

/-!
# Printed and written records

A record goes to a file as its JSON text, and to the screen as the same text with the
known emoji codes replaced. The JSON text says what the record is; what is printed is
that text if and only if it holds no known code (`run_json`).
-/

namespace DocComment.Command

open Text

variable {session : Session} {stdin comment path : String} {options : Options} {record : Record}

/-! ## The JSON text -/

/-- What is prepared for the screen: the JSON text with its emoji codes replaced. -/
theorem prepared_json_screen (hformat : options.format = .json)
    (hscreen : Tag.filled options.output = none)
    (hcomment : Command.comment session.files stdin (sourceOf options) = .ok comment)
    (hrecord : (Record.ofComment comment).result = .ok record) :
    prepared session stdin options =
      .ok (.screen (replaceEmoji session.emoji record.jsonChars ++ ['\n'])) := by
  refine prepared_eq_ok_iff.mpr ⟨comment, record, hcomment, hrecord, ?_⟩
  simp only [deliveryOf, hformat, hscreen]

/-- What is prepared for a file: the JSON text as it is. -/
theorem prepared_json_file (hformat : options.format = .json)
    (hfile : Tag.filled options.output = some path)
    (hcomment : Command.comment session.files stdin (sourceOf options) = .ok comment)
    (hrecord : (Record.ofComment comment).result = .ok record) :
    prepared session stdin options = .ok (.file path record.jsonChars) := by
  refine prepared_eq_ok_iff.mpr ⟨comment, record, hcomment, hrecord, ?_⟩
  simp only [deliveryOf, hformat, hfile]

/-- What is printed is the JSON text and a line feed if and only if the text holds no
known emoji code. -/
theorem printed_eq_iff (emoji : EmojiTable) (record : Record) :
    String.ofList (replaceEmoji emoji record.jsonChars ++ ['\n']) =
      String.ofList (record.jsonChars ++ ['\n']) ↔ HoldsNoEmoji emoji record.jsonChars := by
  rw [← replaceEmoji_eq_self_iff record.ascii_jsonChars, String.ofList_inj, List.append_left_inj]

/-- A run on a comment with a record, in JSON. The text of the record is read as the
record, and no other record has the same bytes. On the screen known emoji codes are
replaced; a file holds the text as it is, unless it cannot be written and that is
reported. -/
theorem run_json (session : Session) (arguments : List String) (stdin : String)
    (options : Options) (comment : String) (record : Record)
    (hparse : Options.parse arguments = some options) (hformat : options.format = .json)
    (hcomment : Command.comment session.files stdin (sourceOf options) = .ok comment)
    (hrecord : (Record.ofComment comment).result = .ok record) :
    (JsonValue.decode record.jsonChars = some (.ofRecord record) ∧
      ∀ other : Record, encodeUtf8 other.jsonChars = encodeUtf8 record.jsonChars →
        other = record) ∧
    (Tag.filled options.output = none →
      ∃ reply after, run session arguments stdin = .ok (reply, after) ∧
        reply.code = successCode ∧
        reply.output = String.ofList (replaceEmoji session.emoji record.jsonChars ++ ['\n']) ∧
        (reply.output = String.ofList (record.jsonChars ++ ['\n']) ↔
          HoldsNoEmoji session.emoji record.jsonChars)) ∧
    ∀ path, Tag.filled options.output = some path → '\x00' ∉ path.toList →
      ∃ reply after, run session arguments stdin = .ok (reply, after) ∧
        (reply.code = successCode ∧
            after.files.read (Path.ofString path) = .ok (encodeUtf8 record.jsonChars) ∨
          reply.code = failureCode ∧ FileTree.SameFiles session.files after.files ∧
            ¬ FileChange.Writable session.files (Path.ofString path)) := by
  refine ⟨⟨record.decode_jsonChars, fun other h => ?_⟩, fun hscreen => ?_,
    fun path hfile hnull => ?_⟩
  · exact Record.jsonChars_inj (encodeUtf8_inj h)
  · obtain ⟨reply, after, hrun, hcode, houtput⟩ :=
      run_of_screen hparse (prepared_json_screen hformat hscreen hcomment hrecord)
    refine ⟨reply, after, hrun, hcode, houtput, ?_⟩
    rw [houtput]
    exact printed_eq_iff session.emoji record
  · exact run_of_file hparse (prepared_json_file hformat hfile hcomment hrecord) hnull

/-! ## An emoji code -/

def emojiComment : String := "é :smile:\n@param [c] \"d\"\n@returns"

def emojiRecord : Record :=
  ⟨some "é :smile:", [⟨"c", some "\"d\"", .absent, true⟩], some ⟨none, .absent⟩⟩

theorem result_emojiComment : (Record.ofComment emojiComment).result = .ok emojiRecord := rfl

theorem parse_format_json :
    Options.parse ["parse", "--format=json"] = some { format := .json } := by
  decide +kernel

theorem not_holdsNoEmoji_emojiRecord : ¬ HoldsNoEmoji .smile emojiRecord.jsonChars := by
  unfold HoldsNoEmoji
  decide +kernel

/-- The sample is read from the standard input and printed. -/
theorem run_json_sample :
    (Options.parse ["parse", "--format=json"] = some { format := .json } ∧
      Command.comment Session.fresh.files emojiComment (sourceOf { format := .json }) =
        .ok emojiComment ∧
      (Record.ofComment emojiComment).result = .ok emojiRecord) ∧
    JsonValue.decode emojiRecord.jsonChars = some (.ofRecord emojiRecord) ∧
    ∃ reply after, run .fresh ["parse", "--format=json"] emojiComment = .ok (reply, after) ∧
      reply.code = successCode ∧
      reply.output = String.ofList (replaceEmoji .smile emojiRecord.jsonChars ++ ['\n']) ∧
      (reply.output = String.ofList (emojiRecord.jsonChars ++ ['\n']) ↔
        HoldsNoEmoji .smile emojiRecord.jsonChars) := by
  have hruns := run_json .fresh ["parse", "--format=json"] emojiComment { format := .json }
    emojiComment emojiRecord parse_format_json rfl rfl result_emojiComment
  exact ⟨⟨parse_format_json, rfl, result_emojiComment⟩, hruns.1.1, hruns.2.1 rfl⟩

/-- What is printed is not always the JSON text. -/
theorem not_printed_eq_jsonChars :
    ¬ ∀ (session : Session) (arguments : List String) (stdin : String) (options : Options)
      (comment : String) (record : Record) (reply : Reply) (after : Session),
      Options.parse arguments = some options → options.format = .json →
      Tag.filled options.output = none →
      Command.comment session.files stdin (sourceOf options) = .ok comment →
      (Record.ofComment comment).result = .ok record →
      run session arguments stdin = .ok (reply, after) →
      reply.output = String.ofList (record.jsonChars ++ ['\n']) := by
  intro h
  have hprepared : prepared .fresh emojiComment { format := .json } = _ :=
    prepared_json_screen rfl rfl rfl result_emojiComment
  obtain ⟨reply, after, hrun, -, houtput⟩ := run_of_screen parse_format_json hprepared
  have hprinted := h .fresh _ emojiComment _ emojiComment emojiRecord reply after parse_format_json
    rfl rfl rfl result_emojiComment hrun
  rw [houtput] at hprinted
  exact not_holdsNoEmoji_emojiRecord ((printed_eq_iff .smile emojiRecord).mp hprinted)

end DocComment.Command
