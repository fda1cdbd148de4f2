import MsysGit.Library.FirstOccurrence
import MsysGit.Library.ShellQuoting

/-!
# The options of upload-to-github.sh

The script evaluates a line to set the variable of an option: `name="VALUE"` for
`--name VALUE`, and `name=VALUE` for `--name=VALUE`.  The shell reads the value a second time
that way.  It comes out as it was, in both forms, if nothing in it means anything to the
shell (`takesValue_iff`).
-/

namespace MsysGit.UploadToGithub

open MsysGit.Library

abbrev Str := List Char

/-! ### The script -/

/-- The options that have a value. -/
inductive Name
  | description
  | user
  | repository
  deriving DecidableEq

def Name.text : Name → Str
  | description => "description".toList
  | user => "user".toList
  | repository => "repository".toList

/-- The variables that the loop sets. -/
structure Settings where
  description : Str := []
  user : Str := []
  repository : Str := []
  dryrun : Str := []
  deriving DecidableEq

def Settings.set (s : Settings) (value : Str) : Name → Settings
  | .description => { s with description := value }
  | .user => { s with user := value }
  | .repository => { s with repository := value }

/-- How the loop ends. -/
inductive Ended
  /-- With the arguments that are left. -/
  | left (s : Settings) (args : List Str)
  /-- `Option '...' needs a value` -/
  | needsValue (arg : Str)
  | usage
  /-- The shell did not just assign a value when it evaluated the line. -/
  | otherwise (line : Str)
  deriving DecidableEq

/-- `--` and the name. -/
def Name.arg (n : Name) : Str := '-' :: '-' :: n.text

/-- `--description|--user|--repository` -/
def isOption (arg : Str) : Bool :=
  arg = Name.description.arg || arg = Name.user.arg || arg = Name.repository.arg

/-- `--description=*|--user=*|--repository=*` -/
def isPair (arg : Str) : Bool :=
  Name.description.arg ++ ['='] <+: arg || Name.user.arg ++ ['='] <+: arg ||
    Name.repository.arg ++ ['='] <+: arg

/-- `${1#--}="\"$2\""` -/
def quotedLine (arg value : Str) : Str := arg.drop 2 ++ '=' :: ('"' :: (value ++ ['"']))

/-- `${pair%%=*}="${pair#*=}"` -/
def pairLine (arg : Str) : Str :=
  let pair := arg.drop 2
  pair.takeWhile (· ≠ '=') ++ '=' :: (pair.dropWhile (· ≠ '=')).tail

section Loop

variable (tildes : Shell.Tildes)

/-- Assign to the variable of that name. -/
def Settings.assign (s : Settings) (name value : Str) : Option Settings :=
  if name = Name.description.text then some (s.set value .description)
  else if name = Name.user.text then some (s.set value .user)
  else if name = Name.repository.text then some (s.set value .repository)
  else none

/-- `eval`, of a line that begins with a name and an equals sign. -/
def eval (s : Settings) (line : Str) : Option Settings :=
  (Shell.readValue tildes (.bare true) (line.dropWhile (· ≠ '=')).tail).bind
    (s.assign (line.takeWhile (· ≠ '=')))

/-- The loop over the arguments. -/
def options : Settings → List Str → Ended
  | s, [] => .left s []
  | s, arg :: args =>
      if isOption arg then
        match args with
        | [] => .needsValue arg
        | value :: args =>
            match eval tildes s (quotedLine arg value) with
            | some s => options s args
            | none => .otherwise (quotedLine arg value)
      else if isPair arg then
        match eval tildes s (pairLine arg) with
        | some s => options s args
        | none => .otherwise (pairLine arg)
      else if arg = "--dry-run".toList then
        options { s with dryrun := "YouGotThatRight".toList } args
      else if arg = "--help".toList then .usage
      else .left s (arg :: args)

end Loop

/-! ### The lines -/

theorem equals_notMem_text (n : Name) : '=' ∉ n.text := by
  cases n <;> decide

theorem equals_notMem_arg (n : Name) : '=' ∉ n.arg := by
  cases n <;> decide

theorem isOption_arg (n : Name) : isOption n.arg = true := by
  cases n <;> decide

/-- `--name=value` -/
def Name.pair (n : Name) (value : Str) : Str := n.arg ++ '=' :: value

theorem isOption_pair (n : Name) (value : Str) : isOption (n.pair value) = false := by
  have other (m : Name) : decide (n.pair value = m.arg) = false := by
    refine decide_eq_false fun same => equals_notMem_arg m ?_
    rw [← same]
    exact List.mem_append_right _ List.mem_cons_self
  rw [isOption, other, other, other]
  rfl

theorem isPair_pair (n : Name) (value : Str) : isPair (n.pair value) = true := by
  have begins : decide (n.arg ++ ['='] <+: n.pair value) = true := by
    refine decide_eq_true ⟨value, ?_⟩
    rw [List.append_assoc]
    rfl
  unfold isPair
  cases n with
  | description => rw [begins, Bool.true_or, Bool.true_or]
  | user => rw [begins, Bool.or_true, Bool.true_or]
  | repository => rw [begins, Bool.or_true]

theorem takeWhile_text (n : Name) (word : Str) :
    (n.text ++ '=' :: word).takeWhile (· ≠ '=') = n.text :=
  takeWhile_ne_append_cons (equals_notMem_text n) word

theorem dropWhile_text (n : Name) (word : Str) :
    ((n.text ++ '=' :: word).dropWhile (· ≠ '=')).tail = word := by
  rw [dropWhile_ne_append_cons (equals_notMem_text n), List.tail_cons]

theorem pairLine_pair (n : Name) (value : Str) :
    pairLine (n.pair value) = n.text ++ '=' :: value := by
  show (n.text ++ '=' :: value).takeWhile _ ++
    '=' :: ((n.text ++ '=' :: value).dropWhile _).tail = _
  rw [takeWhile_text, dropWhile_text]

theorem assign_text (s : Settings) (n : Name) (value : Str) :
    s.assign n.text value = some (s.set value n) := by
  cases n <;> rfl

theorem set_injective (s : Settings) (n : Name) :
    Function.Injective fun value => s.set value n := by
  intro value value' same
  cases n with
  | description => exact congrArg Settings.description same
  | user => exact congrArg Settings.user same
  | repository => exact congrArg Settings.repository same

/-! ### What the loop does with a value -/

section Value

variable {tildes : Shell.Tildes}

/-- The line assigns what the shell reads. -/
theorem eval_text (s : Settings) (n : Name) (word : Str) :
    eval tildes s (n.text ++ '=' :: word) =
      (Shell.readValue tildes (.bare true) word).map fun value => s.set value n := by
  unfold eval
  rw [takeWhile_text, dropWhile_text]
  cases Shell.readValue tildes (.bare true) word with
  | none => rfl
  | some value => exact assign_text s n value

theorem options_arg (s : Settings) (n : Name) (value : Str) (args : List Str) :
    options tildes s (n.arg :: value :: args) =
      match eval tildes s (n.text ++ '=' :: ('"' :: (value ++ ['"']))) with
      | some s => options tildes s args
      | none => .otherwise (n.text ++ '=' :: ('"' :: (value ++ ['"']))) := by
  rw [options, if_pos (isOption_arg n)]
  rfl

theorem options_pair (s : Settings) (n : Name) (value : Str) (args : List Str) :
    options tildes s (n.pair value :: args) =
      match eval tildes s (n.text ++ '=' :: value) with
      | some s => options tildes s args
      | none => .otherwise (n.text ++ '=' :: value) := by
  rw [options.eq_def tildes s (n.pair value :: args)]
  dsimp only
  rw [isOption_pair, if_neg Bool.false_ne_true, if_pos (isPair_pair n value), pairLine_pair]

variable (tildes) (n : Name) (value : Str)

/-- `--name VALUE` sets the variable, and nothing else happens. -/
def TakesArgument : Prop :=
  ∀ s args, options tildes s (n.arg :: value :: args) = options tildes (s.set value n) args

/-- `--name=VALUE`, likewise. -/
def TakesPair : Prop :=
  ∀ s args, options tildes s (n.pair value :: args) = options tildes (s.set value n) args

/-- Both forms. -/
structure TakesValue : Prop where
  argument : TakesArgument tildes n value
  pair : TakesPair tildes n value

variable {tildes n value}

/-- What follows the loop tells which value was assigned. -/
theorem continues_iff {word : Str} {line : Str} :
    (∀ s args, (match eval tildes s (n.text ++ '=' :: word) with
      | some s => options tildes s args
      | none => Ended.otherwise line) = options tildes (s.set value n) args) ↔
      Shell.readValue tildes (.bare true) word = some value := by
  simp only [eval_text]
  cases Shell.readValue tildes (.bare true) word with
  | none =>
      refine iff_of_false (fun all => ?_) nofun
      cases all {} []
  | some read =>
      constructor
      · intro all
        have same : Ended.left (({} : Settings).set read n) [] =
            Ended.left (({} : Settings).set value n) [] := all {} []
        exact congrArg some (set_injective {} n (Ended.left.inj same).1)
      · intro same s args
        cases same
        rfl

theorem takesArgument_iff : TakesArgument tildes n value ↔ Shell.readsQuoted value = true := by
  unfold TakesArgument
  simp only [options_arg]
  exact continues_iff.trans Shell.readValue_quoted_eq_iff

theorem takesPair_iff : TakesPair tildes n value ↔ Shell.readsBare tildes true value = true := by
  unfold TakesPair
  simp only [options_pair]
  exact continues_iff.trans Shell.readValue_bare_eq_self_iff

end Value

/-- **When both forms set the variable to the value**: when nothing in it means anything to the
shell. -/
theorem takesValue_iff (tildes : Shell.Tildes) (n : Name) (value : Str) :
    TakesValue tildes n value ↔ Shell.IsPlain tildes value := by
  rw [← Shell.isPlain_iff, ← takesPair_iff, ← takesArgument_iff]
  exact ⟨fun takes => ⟨takes.pair, takes.argument⟩, fun ⟨pair, argument⟩ => ⟨argument, pair⟩⟩

/-- `--description=Full installer` runs `installer`. -/
theorem not_takesValue :
    ¬ TakesValue ⟨fun name => name = [], true, 1⟩ .description "Full installer".toList := by
  intro takes
  have left := takes.pair {} []
  revert left
  decide +kernel

end MsysGit.UploadToGithub
