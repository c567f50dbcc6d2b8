import DocComment.Proofs.Command.AllOrNothing
import Mathlib.Data.List.Basic

/-!
# The flag for notices

`--verbose` decides which notices are shown, of its own run and of all that follow, and
nothing else. What is seen of a run besides its notices depends neither on the flag nor
on the threshold that earlier runs left (`quiet_seen_run`), so the flag can be put into
any calls of a sequence. The threshold is lowered by the first run whose words are
understood and set the flag, and it stays where it is from then on
(`threshold_eq_debug_iff`).
-/

namespace DocComment.Command

open Options

variable {session other after : Session} {arguments words : List String} {stdin : String}
  {options : Options} {reply : Reply} {calls : List Call} {front back : List Turn} {turn : Turn}

/-! ## Everything but the threshold -/

/-- The session with the threshold that no run has lowered. -/
def Session.quiet (session : Session) : Session :=
  { session with threshold := .warning }

/-- What is seen of a run, the threshold that it leaves put aside. -/
def Seen.quiet (seen : Seen) : Seen :=
  { seen with after := seen.after.quiet }

/-- The stages behind the options look neither at the flag nor at the threshold. -/
theorem carryOut_quiet_loud (session : Session) (stdin : String) (options : Options) :
    carryOut session.quiet stdin options.loud = carryOut session stdin options :=
  rfl

/-- What is seen of a run, the threshold put aside, follows from how its stages ended. -/
theorem quiet_seenOf (session : Session) (options : Options)
    (ended : Except Failure (List Char) × FileTree) :
    (seenOf session options ended).map Seen.quiet =
      (seenOf session.quiet options.loud ended).map Seen.quiet := by
  rcases ended with ⟨(⟨notice, complaint⟩ | fault | _) | text, files⟩
  all_goals rfl

/-- What is seen of a run, the threshold put aside, is the same for sessions that are the
same up to the threshold and for words that ask for the same up to the flag. -/
theorem quiet_seen_run (hsession : session.quiet = other.quiet)
    (hparse : (Options.parse words).map loud = (Options.parse arguments).map loud) :
    ((run other words stdin).map Seen.ofReply).map Seen.quiet =
      ((run session arguments stdin).map Seen.ofReply).map Seen.quiet := by
  rw [seen_run, seen_run]
  -- either both runs refuse their words, or both understand them
  cases hasked : Options.parse arguments with
  | none =>
    rw [hasked, Option.map_none, Option.map_eq_none_iff] at hparse
    rw [hparse]
    change Except.ok (⟨failureCode, "", "", other.quiet⟩ : Seen) = _
    rw [← hsession]
    rfl
  | some options =>
    rw [hasked, Option.map_some] at hparse
    obtain ⟨later, hlater, hloud⟩ := Option.map_eq_some_iff.mp hparse
    simp only [hlater]
    rw [quiet_seenOf, quiet_seenOf session, ← carryOut_quiet_loud other,
      ← carryOut_quiet_loud session, hloud, hsession]

/-! ## Calls with the flag -/

/-- The call with the flag right behind the command. Words that do not begin with the
command stay as they are. -/
def Call.loud (call : Call) : Call :=
  match call.arguments with
  | "parse" :: words => { call with arguments := "parse" :: "--verbose" :: words }
  | _ => call

def Call.loudIf (call : Call) (chosen : Bool) : Call :=
  if chosen then call.loud else call

theorem stdin_loudIf (call : Call) (chosen : Bool) : (call.loudIf chosen).stdin = call.stdin := by
  unfold Call.loudIf Call.loud
  split
  · split
    · rfl
    · rfl
  · rfl

/-- With the flag or without it, a call asks for the same up to the flag. -/
theorem parse_loudIf (call : Call) (chosen : Bool) :
    (Options.parse (call.loudIf chosen).arguments).map loud =
      (Options.parse call.arguments).map loud := by
  unfold Call.loudIf Call.loud
  split
  · split
    · next words hwords =>
      rw [hwords, parse_verbose, Option.map_map]
      rfl
    · rfl
  · rfl

/-- What is seen of a turn besides its notices, the threshold that it leaves put aside. -/
def Turn.seen (turn : Turn) : Except Failure Seen :=
  (turn.outcome.map Seen.ofReply).map Seen.quiet

/-- With and without the flag in some of its calls, the same is seen of each turn of a
sequence. -/
theorem seen_turns_loudIf (h : session.quiet = other.quiet) (choices : List (Call × Bool)) :
    (turns other (choices.map fun choice => choice.1.loudIf choice.2)).map Turn.seen =
      (turns session (choices.map Prod.fst)).map Turn.seen := by
  induction choices generalizing session other with
  | nil => rfl
  | cons choice choices ih =>
    obtain ⟨call, chosen⟩ := choice
    have hfirst : ((run other (call.loudIf chosen).arguments call.stdin).map Seen.ofReply).map
        Seen.quiet = ((run session call.arguments call.stdin).map Seen.ofReply).map Seen.quiet :=
      quiet_seen_run h (parse_loudIf call chosen)
    simp only [List.map_cons, turns, stdin_loudIf]
    rw [List.cons_eq_cons]
    refine ⟨hfirst, ?_⟩
    -- the sequence goes on behind both runs or behind none of them
    cases hrun : run session call.arguments call.stdin with
    | error failure =>
      rw [hrun] at hfirst
      cases hloud : run other (call.loudIf chosen).arguments call.stdin with
      | error failure' => rfl
      | ok ended =>
        rw [hloud] at hfirst
        cases hfirst
    | ok ended =>
      rw [hrun] at hfirst
      cases hloud : run other (call.loudIf chosen).arguments call.stdin with
      | error failure =>
        rw [hloud] at hfirst
        cases hfirst
      | ok ended' =>
        rw [hloud] at hfirst
        exact ih (congrArg Seen.after (Except.ok.inj hfirst)).symm

/-! ## The threshold -/

/-- The threshold behind the words of a run: words that are not understood leave it as it
is. -/
def thresholdBehind (threshold : Level) (arguments : List String) : Level :=
  match Options.parse arguments with
  | none => threshold
  | some options => thresholdOf options threshold

/-- The words are understood and set the flag. -/
def SetsFlag (arguments : List String) : Prop :=
  ∃ options, Options.parse arguments = some options ∧ options.verbose = true

/-- The threshold when a turn is over. It is the one behind its words if the run gets no
reply. -/
def Turn.threshold (turn : Turn) : Level :=
  match turn.outcome with
  | .ok (_, after) => after.threshold
  | .error _ => thresholdBehind turn.before.threshold turn.call.arguments

/-- A run that gets a reply leaves the threshold that its options ask for. -/
theorem threshold_of_seenOf {ended : Except Failure (List Char) × FileTree} {seen : Seen}
    (h : seenOf session options ended = .ok seen) :
    seen.after.threshold = thresholdOf options session.threshold := by
  rcases ended with ⟨(⟨notice, complaint⟩ | fault | _) | text, files⟩
  · exact congrArg (·.after.threshold) (Except.ok.inj h).symm
  · cases h
  · cases h
  · exact congrArg (·.after.threshold) (Except.ok.inj h).symm

/-- The words alone decide about the threshold, however the run ends. -/
theorem threshold_of_run (h : run session arguments stdin = .ok (reply, after)) :
    after.threshold = thresholdBehind session.threshold arguments := by
  have hseen := seen_run session arguments stdin
  rw [h] at hseen
  unfold thresholdBehind
  cases hparse : Options.parse arguments with
  | none =>
    rw [hparse] at hseen
    have hseen : Seen.ofReply (reply, after) = _ := Except.ok.inj hseen
    exact congrArg (·.after.threshold) hseen
  | some options =>
    rw [hparse] at hseen
    exact threshold_of_seenOf hseen.symm

/-- A run lowers the threshold if its words set the flag, and nothing else does. -/
theorem thresholdBehind_eq_debug_iff {threshold : Level} :
    thresholdBehind threshold arguments = .debug ↔ threshold = .debug ∨ SetsFlag arguments := by
  unfold thresholdBehind SetsFlag
  cases Options.parse arguments with
  | none => simp
  | some options =>
    cases hverbose : options.verbose with
    | false => simp [thresholdOf, hverbose]
    | true => simp [thresholdOf, hverbose]

theorem threshold_turn (session : Session) (call : Call) :
    Turn.threshold ⟨session, call, run session call.arguments call.stdin⟩ =
      thresholdBehind session.threshold call.arguments := by
  unfold Turn.threshold
  split
  · next reply after hrun => exact threshold_of_run hrun
  · rfl

/-- The threshold is the lowest one if and only if it was from the start or the words of
a run so far were understood and set the flag. -/
theorem threshold_eq_debug_iff (h : turns session calls = front ++ turn :: back) :
    turn.threshold = .debug ↔
      session.threshold = .debug ∨
        ∃ earlier ∈ front ++ [turn], SetsFlag earlier.call.arguments := by
  -- the first run leaves a threshold, from which the later ones start
  induction calls generalizing session front with
  | nil => exact absurd h.symm (by simp [turns])
  | cons call calls ih =>
    rw [turns] at h
    cases front with
    | nil =>
      obtain ⟨rfl, -⟩ := List.cons.inj h
      rw [threshold_turn, thresholdBehind_eq_debug_iff]
      simp
    | cons first front =>
      obtain ⟨rfl, hback⟩ := List.cons.inj h
      cases hrun : run session call.arguments call.stdin with
      | error failure =>
        rw [hrun] at hback
        exact absurd hback.symm (by simp)
      | ok ended =>
        obtain ⟨reply, after⟩ := ended
        rw [hrun] at hback
        rw [ih hback, threshold_of_run hrun, thresholdBehind_eq_debug_iff, or_assoc,
          List.cons_append, List.exists_mem_cons_iff]

/-- Once it is the lowest one, the threshold stays so. -/
theorem threshold_stays (h : turns session calls = front ++ turn :: back)
    (hturn : turn.threshold = .debug) : ∀ later ∈ back, later.threshold = .debug := by
  intro later hlater
  obtain ⟨between, rest, rfl⟩ := List.append_of_mem hlater
  have hrest : turns session calls = (front ++ turn :: between) ++ later :: rest := by
    rw [h, List.append_assoc, List.cons_append]
  rw [threshold_eq_debug_iff hrest]
  refine ((threshold_eq_debug_iff h).mp hturn).imp_right ?_
  rintro ⟨earlier, hearlier, hsets⟩
  refine ⟨earlier, ?_, hsets⟩
  have hmem : earlier ∈ front ++ turn :: between := by
    rw [List.append_cons]
    exact List.mem_append_left between hearlier
  exact List.mem_append_left [later] hmem

/-- The flag changes nothing but notices. Put into any calls of a sequence, it leaves all
that is seen of each turn as it is; and the threshold is the lowest one from the first
words on that are understood and set the flag. -/
theorem turns_loudIf (session : Session) :
    (∀ choices : List (Call × Bool),
      (turns session (choices.map fun choice => choice.1.loudIf choice.2)).map Turn.seen =
        (turns session (choices.map Prod.fst)).map Turn.seen) ∧
    ∀ (calls : List Call) (front : List Turn) (turn : Turn) (back : List Turn),
      turns session calls = front ++ turn :: back →
        (turn.threshold = .debug ↔
          session.threshold = .debug ∨
            ∃ earlier ∈ front ++ [turn], SetsFlag earlier.call.arguments) ∧
        (turn.threshold = .debug → ∀ later ∈ back, later.threshold = .debug) := by
  refine ⟨seen_turns_loudIf rfl, ?_⟩
  intro calls front turn back h
  exact ⟨threshold_eq_debug_iff h, threshold_stays h⟩

/-- An abbreviated flag, words that are refused, and plain words. The flag is put into the
last two calls. -/
def sampleChoices : List (Call × Bool) :=
  [(⟨["parse", "--verb", "--text=@type A"], ""⟩, false),
    (⟨["parse", "--format=xml"], ""⟩, true),
    (⟨["parse"], "@type A"⟩, true)]

/-- The same is seen of the sample with the flag in its last two calls and without it; and
the threshold is the lowest one from the first call on, whose flag is its own. -/
theorem turns_loudIf_sample :
    (turns .fresh (sampleChoices.map fun choice => choice.1.loudIf choice.2)).map Turn.seen =
        (turns .fresh (sampleChoices.map Prod.fst)).map Turn.seen ∧
      ∀ turn ∈ turns .fresh (sampleChoices.map Prod.fst), turn.threshold = .debug := by
  obtain ⟨hseen, hthreshold⟩ := turns_loudIf .fresh
  refine ⟨hseen sampleChoices, ?_⟩
  have hflag : SetsFlag ["parse", "--verb", "--text=@type A"] :=
    ⟨{ text := some "@type A", verbose := true }, by decide +kernel, rfl⟩
  obtain ⟨hiff, hstays⟩ := hthreshold (sampleChoices.map Prod.fst) [] _ _ rfl
  have hfirst := hiff.mpr (.inr ⟨_, List.mem_singleton_self _, hflag⟩)
  exact List.forall_mem_cons.mpr ⟨hfirst, hstays hfirst⟩

end DocComment.Command
