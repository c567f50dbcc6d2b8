import DocComment.Command.Run
import DocComment.Proofs.Files

/-!
# Runs

What a run shows and leaves, apart from its notices, follows from its stages. The
words are understood or not (`seen_run`); behind them a result is prepared or there
is a failure (`prepared`, `prepared_error`); and the result is delivered or cannot be
(`ends_carryOut`).
-/

namespace DocComment.Command

open Text

variable {session after : Session} {arguments : List String} {stdin : String} {options : Options}
  {files : FileTree} {reply : Reply} {failure : Failure}

/-- The session in which no run has been made yet. -/
def Session.fresh : Session :=
  { files := .fresh }

/-! ## Results -/

/-- The delivery that a run prepares: that of the record of its comment. -/
def prepared (session : Session) (stdin : String) (options : Options) :
    Except Failure Delivery := do
  let text ← comment session.files stdin (sourceOf options)
  (interpret session.toConsole options text).result

theorem prepared_of_ok {text : String}
    (h : comment session.files stdin (sourceOf options) = .ok text) :
    prepared session stdin options = (interpret session.toConsole options text).result := by
  rw [prepared, h]
  rfl

theorem prepared_of_error (h : comment session.files stdin (sourceOf options) = .error failure) :
    prepared session stdin options = .error failure := by
  rw [prepared, h]
  rfl

/-- The record of a text is delivered; a malformed type ends the run. -/
theorem result_interpret (console : Console) (options : Options) (text : String) :
    (interpret console options text).result =
      ((Record.ofComment text).result.mapError malformed).map (deliveryOf console options) := by
  have hadapt : Checked.result ((Record.ofComment text).adapt malformed) =
      (Record.ofComment text).result.mapError malformed := rfl
  unfold interpret
  rw [Checked.result_bind, hadapt]
  cases (Record.ofComment text).result with
  | error fault => rfl
  | ok record => rfl

/-- A delivery is prepared from the record of a comment. -/
theorem prepared_eq_ok_iff {delivery : Delivery} :
    prepared session stdin options = .ok delivery ↔
      ∃ text record, comment session.files stdin (sourceOf options) = .ok text ∧
        (Record.ofComment text).result = .ok record ∧
        deliveryOf session.toConsole options record = delivery := by
  cases hcomment : comment session.files stdin (sourceOf options) with
  | error failure =>
    rw [prepared_of_error hcomment]
    exact iff_of_false nofun nofun
  | ok text =>
    rw [prepared_of_ok hcomment, result_interpret]
    cases hrecord : (Record.ofComment text).result with
    | error fault =>
      -- a comment with a malformed type has no record
      refine iff_of_false nofun ?_
      rintro ⟨text', record, htext, hok, -⟩
      obtain rfl := Except.ok.inj htext
      rw [hrecord] at hok
      cases hok
    | ok record =>
      constructor
      · intro h
        exact ⟨text, record, rfl, hrecord, Except.ok.inj h⟩
      · rintro ⟨text', record', htext, hok, rfl⟩
        obtain rfl := Except.ok.inj htext
        rw [hrecord] at hok
        obtain rfl := Except.ok.inj hok
        rfl

/-- The result that is prepared is delivered; without one the files stay. -/
theorem value_carryOut (session : Session) (stdin : String) (options : Options) :
    (carryOut session stdin options).value =
      match prepared session stdin options with
      | .error failure => (.error failure, session.files)
      | .ok delivery => deliver session.files delivery := by
  unfold carryOut
  cases hcomment : comment session.files stdin (sourceOf options) with
  | error failure =>
    rw [prepared_of_error hcomment]
    rfl
  | ok text =>
    rw [prepared_of_ok hcomment, Checked.result]
    simp only [Logged.value_bind]
    cases (interpret session.toConsole options text).run.value with
    | error failure => rfl
    | ok delivery => rfl

/-! ## What is seen of a run -/

/-- What is seen of a run besides its notices, and what it leaves to the next one. -/
structure Seen where
  code : Nat
  output : String
  complaint : String
  after : Session

def Seen.ofReply (ended : Reply × Session) : Seen :=
  ⟨ended.1.code, ended.1.output, ended.1.complaint, ended.2⟩

/-- What is seen of a run whose words are understood. -/
def seenOf (session : Session) (options : Options) :
    Except Failure (List Char) × FileTree → Except Failure Seen
  | (.ok text, files) =>
    .ok ⟨successCode, String.ofList text, "",
      { session with files, threshold := thresholdOf options session.threshold }⟩
  | (.error (.reported _ complaint), files) =>
    .ok ⟨failureCode, "", complaint,
      { session with files, threshold := thresholdOf options session.threshold }⟩
  | (.error crash, _) => .error crash

/-- What is seen of a run follows from its words and from the stages behind them. -/
theorem seen_run (session : Session) (arguments : List String) (stdin : String) :
    (run session arguments stdin).map Seen.ofReply =
      match Options.parse arguments with
      | none => .ok ⟨failureCode, "", "", session⟩
      | some options => seenOf session options (carryOut session stdin options).value := by
  unfold run
  cases Options.parse arguments with
  | none => rfl
  | some options =>
    rcases hended : (carryOut session stdin options).value with
      ⟨(⟨notice, complaint⟩ | fault | _) | text, files⟩
    all_goals simp only [hended]; rfl

/-! ## How the stages end -/

/-- How the stages behind the options can end, and what is left of the files. -/
inductive Ends (session : Session) (stdin : String) (options : Options) :
    Except Failure (List Char) × FileTree → Prop where
  /-- No result is prepared. -/
  | unprepared {failure : Failure} : prepared session stdin options = .error failure →
      Ends session stdin options (.error failure, session.files)
  /-- The result is shown. -/
  | shown {text : List Char} : prepared session stdin options = .ok (.screen text) →
      Ends session stdin options (.ok text, session.files)
  /-- The result is written to a file. -/
  | written {path : String} {text : List Char} {after : FileTree} :
      prepared session stdin options = .ok (.file path text) →
      FileChange.Written session.files after (Path.ofString path) (encodeUtf8 text) →
      Ends session stdin options (.ok [], after)
  /-- The result cannot be written. -/
  | unwritten {path : String} {text : List Char} {after : FileTree} (fault : FileFault) :
      prepared session stdin options = .ok (.file path text) →
      FileTree.SameFiles session.files after →
      ¬ FileChange.Writable session.files (Path.ofString path) →
      Ends session stdin options (.error (unwritable path fault.message), after)
  /-- The path of the result holds a null character. -/
  | nullInPath {path : String} {text : List Char} :
      prepared session stdin options = .ok (.file path text) → '\x00' ∈ path.toList →
      Ends session stdin options (.error .nullInPath, session.files)

/-- The stages behind the options end in one of these ways. -/
theorem ends_carryOut (session : Session) (stdin : String) (options : Options) :
    Ends session stdin options (carryOut session stdin options).value := by
  rw [value_carryOut]
  cases hprepared : prepared session stdin options with
  | error failure => exact .unprepared hprepared
  | ok delivery =>
    cases delivery with
    | screen text => exact .shown hprepared
    | file path text =>
      simp only [deliver]
      split
      · next hnull => exact .nullInPath hprepared (by simpa using hnull)
      · have hwrite :=
          FileChange.writeEnds_writeDeep (Path.ofString path) (encodeUtf8 text) session.files
        have hwritable (h : FileChange.Writable session.files (Path.ofString path)) :=
          FileChange.apply_writeDeep_of_writable h (encodeUtf8 text)
        -- nothing else is needed of the write than how it can end
        generalize FileChange.apply _ session.files = ended at hwrite hwritable ⊢
        cases hwrite with
        | written h => exact .written hprepared h
        | failed fault h =>
          refine .unwritten fault hprepared h fun hcan => ?_
          obtain ⟨after, heq⟩ := hwritable hcan
          cases heq

/-! ## Runs with a result -/

/-- A run whose words are understood ends as its stages end. -/
theorem exists_ends (session : Session) (hparse : Options.parse arguments = some options)
    (stdin : String) :
    ∃ ended, Ends session stdin options ended ∧
      (run session arguments stdin).map Seen.ofReply = seenOf session options ended := by
  refine ⟨_, ends_carryOut session stdin options, ?_⟩
  rw [seen_run, hparse]

/-- A run of which something is seen gets a reply. -/
theorem exists_reply_of_seen {seen : Seen}
    (h : (run session arguments stdin).map Seen.ofReply = .ok seen) :
    ∃ reply after, run session arguments stdin = .ok (reply, after) ∧
      Seen.ofReply (reply, after) = seen := by
  cases hrun : run session arguments stdin with
  | error failure =>
    rw [hrun] at h
    cases h
  | ok ended =>
    rw [hrun] at h
    exact ⟨ended.1, ended.2, rfl, Except.ok.inj h⟩

/-- A result for the screen is shown. -/
theorem run_of_screen {text : List Char} (hparse : Options.parse arguments = some options)
    (hprepared : prepared session stdin options = .ok (.screen text)) :
    ∃ reply after, run session arguments stdin = .ok (reply, after) ∧ reply.code = successCode ∧
      reply.output = String.ofList text := by
  obtain ⟨ended, hends, hseen⟩ := exists_ends session hparse stdin
  cases hends with
  | unprepared hfailed => cases hprepared.symm.trans hfailed
  | shown hshown =>
    cases hprepared.symm.trans hshown
    obtain ⟨reply, after, hrun, hreply⟩ := exists_reply_of_seen hseen
    exact ⟨reply, after, hrun, congrArg Seen.code hreply, congrArg Seen.output hreply⟩
  | written hfile => cases hprepared.symm.trans hfile
  | unwritten _ hfile => cases hprepared.symm.trans hfile
  | nullInPath hfile => cases hprepared.symm.trans hfile

/-- A result for a file is found in the file, unless it is reported that it cannot be
written; and then its path leads to no file and no vacant place in a directory that is
there. -/
theorem run_of_file {path : String} {text : List Char}
    (hparse : Options.parse arguments = some options)
    (hprepared : prepared session stdin options = .ok (.file path text))
    (hnull : '\x00' ∉ path.toList) :
    ∃ reply after, run session arguments stdin = .ok (reply, after) ∧
      (reply.code = successCode ∧
          after.files.read (Path.ofString path) = .ok (encodeUtf8 text) ∨
        reply.code = failureCode ∧ FileTree.SameFiles session.files after.files ∧
          ¬ FileChange.Writable session.files (Path.ofString path)) := by
  obtain ⟨ended, hends, hseen⟩ := exists_ends session hparse stdin
  -- the delivery is prepared already, so only the ways to end behind a prepared file are left
  cases hends with
  | unprepared hfailed => cases hprepared.symm.trans hfailed
  | shown hshown => cases hprepared.symm.trans hshown
  | @written path' text' files hfile hwritten =>
    cases hprepared.symm.trans hfile
    obtain ⟨reply, after, hrun, hreply⟩ := exists_reply_of_seen hseen
    have hafter : after.files = files := congrArg (·.after.files) hreply
    exact ⟨reply, after, hrun, .inl ⟨congrArg Seen.code hreply, hafter ▸ hwritten.read⟩⟩
  | @unwritten path' text' files fault hfile hsame hunwritable =>
    cases hprepared.symm.trans hfile
    obtain ⟨reply, after, hrun, hreply⟩ := exists_reply_of_seen hseen
    have hafter : after.files = files := congrArg (·.after.files) hreply
    exact ⟨reply, after, hrun, .inr ⟨congrArg Seen.code hreply, hafter ▸ hsame, hunwritable⟩⟩
  | @nullInPath path' text' hfile hnull' =>
    cases hprepared.symm.trans hfile
    exact absurd hnull' hnull

/-! ## Failures -/

/-- Where the comment is taken from is a file whose path is too long to be
followed. -/
def ReadsTooLongPath (files : FileTree) (options : Options) : Prop :=
  ∃ path, sourceOf options = .file path ∧ '\x00' ∉ (Path.ofString path).text.toList ∧
    files.follow (Path.ofString path) = .error .nameTooLong

/-- Only a path that is too long cannot be looked up. -/
theorem exists?_eq_error_iff {path : Path} :
    (∃ fault, files.exists? path = .error fault) ↔ files.follow path = .error .nameTooLong := by
  unfold FileTree.exists?
  rcases files.follow path with cause | place
  · cases cause <;> simp
  · cases place <;> simp

/-- A file either is read, or is reported, or its path is too long. -/
theorem readComment_cases (files : FileTree) (path : Path) :
    (∃ text, readComment files path = .ok text) ∨
      (∃ notice complaint, readComment files path = .error (.reported notice complaint)) ∨
      '\x00' ∉ path.text.toList ∧ files.follow path = .error .nameTooLong ∧
        ∃ fault, readComment files path = .error (.badPath fault) := by
  unfold readComment
  -- each stage of reading can end it: the null character, the look-up, the bytes, their text
  split
  · exact .inr (.inl ⟨_, _, rfl⟩)
  next hnull =>
  have hnull' : '\x00' ∉ path.text.toList := by simpa using hnull
  cases hexists : files.exists? path with
  | error fault => exact .inr (.inr ⟨hnull', exists?_eq_error_iff.mp ⟨fault, hexists⟩, fault, rfl⟩)
  | ok found =>
    cases found with
    | false => exact .inr (.inl ⟨_, _, rfl⟩)
    | true =>
      simp only
      cases files.read path with
      | error fault => exact .inr (.inl ⟨_, _, rfl⟩)
      | ok bytes =>
        simp only [commentOfBytes]
        cases decodeUtf8 bytes with
        | ok cs => exact .inl ⟨_, rfl⟩
        | error fault => exact .inr (.inl ⟨_, _, rfl⟩)

/-- Without a prepared result the run is reported, unless it reads a path that is too
long. -/
theorem prepared_error (h : prepared session stdin options = .error failure) :
    (∃ notice complaint, failure = .reported notice complaint) ∨
      ReadsTooLongPath session.files options ∧ ∃ fault, failure = .badPath fault := by
  -- the comment is missing, or it is there and a type in it is malformed
  cases hcomment : comment session.files stdin (sourceOf options) with
  | ok text =>
    rw [prepared_of_ok hcomment, result_interpret] at h
    cases hrecord : (Record.ofComment text).result with
    | error fault =>
      rw [hrecord] at h
      exact .inl ⟨_, _, (Except.error.inj h).symm⟩
    | ok record =>
      rw [hrecord] at h
      cases h
  | error failure' =>
    rw [prepared_of_error hcomment] at h
    obtain rfl := Except.error.inj h
    cases hsource : sourceOf options with
    | given text => simp [hsource, comment] at hcomment
    | standardInput => simp [hsource, comment] at hcomment
    | file path =>
      rw [hsource, comment] at hcomment
      rcases readComment_cases session.files (Path.ofString path) with
        ⟨text, htext⟩ | ⟨notice, complaint, hreported⟩ | ⟨hnull, hlong, fault, hbad⟩
      · rw [hcomment] at htext
        cases htext
      · rw [hcomment] at hreported
        exact .inl ⟨notice, complaint, Except.error.inj hreported⟩
      · rw [hcomment] at hbad
        exact .inr ⟨⟨path, hsource, hnull, hlong⟩, fault, Except.error.inj hbad⟩

theorem prepared_of_readsTooLongPath (h : ReadsTooLongPath session.files options) (stdin : String) :
    ∃ fault, prepared session stdin options = .error (.badPath fault) := by
  obtain ⟨path, hsource, hnull, hlong⟩ := h
  obtain ⟨fault, hfault⟩ := exists?_eq_error_iff.mpr hlong
  refine ⟨fault, prepared_of_error ?_⟩
  rw [hsource, comment, readComment, if_neg (by simpa using hnull), hfault]

end DocComment.Command
