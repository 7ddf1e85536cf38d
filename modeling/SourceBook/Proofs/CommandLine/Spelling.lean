import SourceBook.Proofs.CommandLine.Arguments

set_option autoImplicit false

namespace SourceBook

theorem dropStart?_singleton_eq_none_iff {α : Type} [DecidableEq α] {first : α} {whole : List α} :
    dropStart? [first] whole = none ↔ whole.head? ≠ some first := by
  cases whole with
  | nil => simp [dropStart?]
  | cons head rest => simp [dropStart?, eq_comm]

namespace Switch

def word (switch : Switch) : Bytes := hyphen :: hyphen :: Utf8.encode switch.name

theorem ofName?_eq_some_iff {name : Bytes} {switch : Switch} :
    ofName? name = some switch ↔ name = Utf8.encode switch.name := by
  constructor
  next =>
    intro found
    have named := List.find?_some found
    simpa [eq_comm] using named
  next =>
    rintro rfl
    cases switch <;> decide

theorem ofLetter?_eq_some_iff {letter : UInt8} {switch : Switch} :
    ofLetter? letter = some switch ↔ switch.letter?.map Utf8.encodeChar = some [letter] := by
  constructor
  next =>
    intro found
    have lettered := List.find?_some found
    simpa using lettered
  next =>
    intro lettered
    cases switch <;> cases lettered <;> decide

@[simp] theorem ofLetter?_quiet : ofLetter? 'q'.toUInt8 = some quiet := by decide

@[simp] theorem ofLetter?_output : ofLetter? 'o'.toUInt8 = some output := by decide

end Switch

namespace Advance

def past (taken : Option Bytes) (draft : Draft) : Advance :=
  match taken with
  | none => .onward draft
  | some _ => .pastValue draft

end Advance

namespace CommandLine

theorem exists_format_of_withFormatName {draft ready : Draft} {word : Bytes}
    (named : draft.withFormatName word = .ok ready) :
    ∃ format : ListFormat, word = Utf8.encode format.name := by
  rw [Draft.withFormatName] at named
  split at named
  next format found =>
    have same := List.find?_some found
    exact ⟨format, (beq_iff_eq.1 same).symm⟩
  next => cases named

theorem isValue_formatName (format : ListFormat) : isValue (Utf8.encode format.name) := by
  cases format <;> decide

inductive SpellsLetters : Bytes → Option Bytes → List Argument → Prop where
  | nil : SpellsLetters [] none []
  | verbose {letters : Bytes} {taken : Option Bytes} {arguments : List Argument}
      (rest : SpellsLetters letters taken arguments) :
      SpellsLetters ('v'.toUInt8 :: letters) taken (.verbose :: arguments)
  | quiet {letters : Bytes} {taken : Option Bytes} {arguments : List Argument}
      (rest : SpellsLetters letters taken arguments) :
      SpellsLetters ('q'.toUInt8 :: letters) taken (.quiet :: arguments)
  | attached {value : Bytes} (nonempty : value ≠ []) (plain : value.head? ≠ some equalsSign) :
      SpellsLetters ('o'.toUInt8 :: value) none [.output value]
  | assigned (value : Bytes) :
      SpellsLetters ('o'.toUInt8 :: equalsSign :: value) none [.output value]
  | apart {value : Bytes} (allowed : isValue value) :
      SpellsLetters ['o'.toUInt8] (some value) [.output value]

inductive SpellsWord : Bytes → Option Bytes → List Argument → Prop where
  | root {word : Bytes} (allowed : isValue word) : SpellsWord word none [.root word]
  | letters {letters : Bytes} {taken : Option Bytes} {arguments : List Argument}
      (nonempty : letters ≠ []) (spells : SpellsLetters letters taken arguments) :
      SpellsWord (hyphen :: letters) taken arguments
  | outputAssigned (value : Bytes) :
      SpellsWord (Switch.output.word ++ equalsSign :: value) none [.output value]
  | output {value : Bytes} (allowed : isValue value) :
      SpellsWord Switch.output.word (some value) [.output value]
  | listAssigned (format : ListFormat) :
      SpellsWord (Switch.list.word ++ equalsSign :: Utf8.encode format.name) none [.list format]
  | list (format : ListFormat) :
      SpellsWord Switch.list.word (some (Utf8.encode format.name)) [.list format]
  | verbose : SpellsWord Switch.verbose.word none [.verbose]
  | quiet : SpellsWord Switch.quiet.word none [.quiet]

inductive Spells : List Bytes → List Argument → Prop where
  | nil : Spells [] []
  | roots (words : List Bytes) : Spells ([hyphen, hyphen] :: words) (words.map .root)
  | word {word : Bytes} {words : List Bytes} {arguments others : List Argument}
      (first : SpellsWord word none arguments) (rest : Spells words others) :
      Spells (word :: words) (arguments ++ others)
  | withValue {word value : Bytes} {words : List Bytes} {arguments others : List Argument}
      (first : SpellsWord word (some value) arguments) (rest : Spells words others) :
      Spells (word :: value :: words) (arguments ++ others)
  -- The format may be left out where the next word cannot be one.
  | list {words : List Bytes} {others : List Argument}
      (alone : ∀ next, words.head? = some next → isValue next = false)
      (rest : Spells words others) :
      Spells (Switch.list.word :: words) (.list .plain :: others)

theorem readWords_cons (setting : Option Bytes) (draft : Draft) (word : Bytes)
    (words : List Bytes) :
    readWords setting draft (word :: words) =
      match readWord draft words.head? word with
      | .error problem => .error problem
      | .ok (.done request) => .ok request
      | .ok (.onward draft) => readWords setting draft words
      | .ok (.pastValue draft) => readWords setting draft words.tail
      | .ok (.rootsOnly draft) =>
        match readRoots draft words with
        | .error problem => .error problem
        | .ok draft => (draft.finish setting).map .run := by
  cases words with
  | nil =>
    rw [readWords, List.head?_nil]
    rcases readWord draft none word with problem | advance
    next => rfl
    next => cases advance <;> rfl
  | cons next rest => rfl

theorem readRoots_eq_applyAll (draft : Draft) (words : List Bytes) :
    readRoots draft words = Argument.applyAll draft (words.map .root) := by
  induction words generalizing draft with
  | nil => rfl
  | cons word rest ih =>
    rw [readRoots, List.map_cons, Argument.applyAll, Argument.apply]
    cases draft.withRoot word with
    | ok next => exact ih next
    | error problem => rfl

section Words

variable {draft : Draft} {next? : Option Bytes}

theorem follows_of_eq {value : Bytes} (next : next? = some value) :
    ∀ taken, some value = some taken → next? = some taken := by
  rintro _ ⟨⟩
  exact next

theorem readOutput_of_isValue {value : Bytes} (allowed : isValue value)
    (next : next? = some value) :
    readOutput draft next? = (draft.withOutput value).map .pastValue := by
  simp only [readOutput, next, allowed, if_true]

theorem readLetters_of_spells {letters : Bytes} {taken : Option Bytes} {arguments : List Argument}
    (spells : SpellsLetters letters taken arguments)
    (follows : ∀ value, taken = some value → next? = some value) :
    readLetters draft next? letters =
      (Argument.applyAll draft arguments).map (Advance.past taken) := by
  induction spells generalizing draft with
  | nil => rfl
  | verbose rest ih => exact ih follows
  | quiet rest ih =>
    simp only [readLetters, Switch.ofLetter?_quiet, Argument.applyAll, Argument.apply]
    cases draft.withQuiet with
    | ok next => exact ih follows
    | error problem => rfl
  | attached nonempty plain =>
    have whole := dropStart?_singleton_eq_none_iff.2 plain
    simp only [readLetters, Switch.ofLetter?_output, nonempty, if_false, whole,
      Argument.applyAll_singleton]
    rfl
  | assigned value =>
    simp only [readLetters, Switch.ofLetter?_output, List.cons_ne_nil, if_false,
      Argument.applyAll_singleton]
    rfl
  | apart allowed =>
    simp only [readLetters, Switch.ofLetter?_output, if_true, Argument.applyAll_singleton]
    exact readOutput_of_isValue allowed (follows _ rfl)

theorem readWord_of_isValue {word : Bytes} (value : isValue word) :
    readWord draft next? word = (draft.withRoot word).map .onward := by
  have single : word ≠ [hyphen, hyphen] := by
    rintro rfl
    cases value
  simp only [readWord, single, if_false, value, if_true]

theorem readWord_letters {letters : Bytes} (nonempty : letters ≠ [])
    (single : letters.head? ≠ some hyphen) :
    readWord draft next? (hyphen :: letters) = readLetters draft next? letters := by
  cases letters with
  | nil => exact absurd rfl nonempty
  | cons letter rest =>
    have other : letter ≠ hyphen := by simpa using single
    simp [readWord, isValue, dropStart?, other, Ne.symm other]

theorem readWord_switch (switch : Switch) :
    readWord draft next? switch.word = readSwitch draft next? switch none := by
  cases switch <;> rfl

theorem readWord_assigned (switch : Switch) (value : Bytes) :
    readWord draft next? (switch.word ++ equalsSign :: value) =
      readSwitch draft next? switch (some value) := by
  cases switch <;> rfl

theorem SpellsLetters.head?_ne {letters : Bytes} {taken : Option Bytes} {arguments : List Argument}
    (spells : SpellsLetters letters taken arguments) : letters.head? ≠ some hyphen := by
  cases spells <;> simp +decide

theorem readWord_of_spells {word : Bytes} {taken : Option Bytes} {arguments : List Argument}
    (spells : SpellsWord word taken arguments)
    (follows : ∀ value, taken = some value → next? = some value) :
    readWord draft next? word = (Argument.applyAll draft arguments).map (Advance.past taken) := by
  cases spells with
  | root allowed =>
    rw [readWord_of_isValue allowed, Argument.applyAll_singleton]
    rfl
  | letters nonempty spells =>
    rw [readWord_letters nonempty spells.head?_ne, readLetters_of_spells spells follows]
  | outputAssigned value =>
    rw [readWord_assigned, Argument.applyAll_singleton]
    rfl
  | output allowed =>
    rw [readWord_switch, Argument.applyAll_singleton]
    exact readOutput_of_isValue allowed (follows _ rfl)
  | listAssigned format =>
    rw [readWord_assigned, readSwitch, Draft.withFormatName, ListFormat.ofName?_name,
      Argument.applyAll_singleton]
    rfl
  | list format =>
    rw [readWord_switch, Argument.applyAll_singleton]
    simp only [readSwitch, readList, follows _ rfl, isValue_formatName, if_true,
      Draft.withFormatName, ListFormat.ofName?_name]
    rfl
  | verbose => rw [readWord_switch]; rfl
  | quiet =>
    rw [readWord_switch, Argument.applyAll_singleton]
    rfl

theorem exists_isValue_of_readOutput {advance : Advance}
    (read : readOutput draft next? = .ok advance) :
    ∃ value, next? = some value ∧ isValue value := by
  cases next? with
  | none => cases read
  | some value =>
    by_cases taken : isValue value
    next => exact ⟨value, rfl, taken⟩
    next =>
      simp only [readOutput, taken] at read
      cases read

theorem readList_alone (alone : ∀ next, next? = some next → isValue next = false) :
    readList draft next? = (draft.withFormat .plain).map .onward := by
  cases next? with
  | none => rfl
  | some next =>
    rw [readList, alone next rfl]
    rfl

theorem exists_format_of_readList {advance : Advance} (read : readList draft next? = .ok advance) :
    (∃ format : ListFormat, next? = some (Utf8.encode format.name)) ∨
      ∀ next, next? = some next → isValue next = false := by
  cases next? with
  | none => exact .inr nofun
  | some next =>
    by_cases taken : isValue next
    next =>
      simp only [readList, taken, if_true] at read
      cases named : draft.withFormatName next with
      | error problem => simp [named, Except.map] at read
      | ok ready =>
        obtain ⟨format, rfl⟩ := exists_format_of_withFormatName named
        exact .inl ⟨format, rfl⟩
    next =>
      rw [Bool.not_eq_true] at taken
      refine .inr ?_
      rintro _ ⟨⟩
      exact taken

theorem exists_spellsLetters {letters : Bytes} {advance : Advance}
    (read : readLetters draft next? letters = .ok advance)
    (unanswered : advance ≠ .done .help ∧ advance ≠ .done .version) :
    ∃ taken arguments, SpellsLetters letters taken arguments ∧
      ∀ value, taken = some value → next? = some value := by
  induction letters generalizing draft with
  | nil => exact ⟨none, [], .nil, nofun⟩
  | cons letter rest ih =>
    rw [readLetters] at read
    cases found : Switch.ofLetter? letter with
    | none => simp [found] at read
    | some switch =>
      have named := Switch.ofLetter?_eq_some_iff.1 found
      rw [found] at read
      cases switch with
      | verbose =>
        cases named
        obtain ⟨taken, arguments, spells, follows⟩ := ih read
        exact ⟨taken, .verbose :: arguments, .verbose spells, follows⟩
      | quiet =>
        cases named
        cases once : draft.withQuiet with
        | error problem => simp [once] at read
        | ok next =>
          rw [once] at read
          obtain ⟨taken, arguments, spells, follows⟩ := ih read
          exact ⟨taken, .quiet :: arguments, .quiet spells, follows⟩
      | output =>
        cases named
        by_cases last : rest = []
        next =>
          subst last
          obtain ⟨value, next, allowed⟩ := exists_isValue_of_readOutput read
          exact ⟨some value, [.output value], .apart allowed, follows_of_eq next⟩
        next =>
          cases cut : dropStart? [equalsSign] rest with
          | none =>
            have plain := dropStart?_singleton_eq_none_iff.1 cut
            exact ⟨none, [.output rest], .attached last plain, nofun⟩
          | some value =>
            have assigned := dropStart?_eq_some_iff.1 cut
            subst assigned
            exact ⟨none, [.output value], .assigned value, nofun⟩
      | list => cases named
      | help =>
        cases read
        exact absurd rfl unanswered.1
      | version =>
        cases read
        exact absurd rfl unanswered.2

theorem exists_spellsWord_of_readSwitch {switch : Switch} {advance : Advance}
    (read : readSwitch draft next? switch none = .ok advance)
    (unanswered : advance ≠ .done .help ∧ advance ≠ .done .version) :
    (∃ taken arguments, SpellsWord switch.word taken arguments ∧
      ∀ value, taken = some value → next? = some value) ∨
      switch = .list ∧ ∀ next, next? = some next → isValue next = false := by
  cases switch with
  | output =>
    obtain ⟨value, next, allowed⟩ := exists_isValue_of_readOutput read
    exact .inl ⟨some value, [.output value], .output allowed, follows_of_eq next⟩
  | list =>
    rcases exists_format_of_readList read with ⟨format, next⟩ | alone
    next => exact .inl ⟨some _, [.list format], .list format, follows_of_eq next⟩
    next => exact .inr ⟨rfl, alone⟩
  | verbose => exact .inl ⟨none, [.verbose], .verbose, nofun⟩
  | quiet => exact .inl ⟨none, [.quiet], .quiet, nofun⟩
  | help =>
    cases read
    exact absurd rfl unanswered.1
  | version =>
    cases read
    exact absurd rfl unanswered.2

theorem exists_spellsWord_of_assigned {switch : Switch} {value : Bytes} {advance : Advance}
    (read : readSwitch draft next? switch (some value) = .ok advance) :
    ∃ arguments, SpellsWord (switch.word ++ equalsSign :: value) none arguments := by
  cases switch with
  | output => exact ⟨[.output value], .outputAssigned value⟩
  | list =>
    cases named : draft.withFormatName value with
    | error problem => simp [readSwitch, named, Except.map] at read
    | ok ready =>
      obtain ⟨format, rfl⟩ := exists_format_of_withFormatName named
      exact ⟨[.list format], .listAssigned format⟩
  | verbose | quiet | help | version => cases read

theorem exists_letters_of_not_isValue {word : Bytes} (noValue : ¬isValue word) :
    ∃ letters, letters ≠ [] ∧ word = hyphen :: letters := by
  cases word with
  | nil => exact absurd rfl noValue
  | cons first letters =>
    by_cases hyphenated : first = hyphen
    next =>
      subst hyphenated
      refine ⟨letters, ?_, rfl⟩
      rintro rfl
      exact absurd rfl noValue
    next => simp [isValue, hyphenated] at noValue

theorem eq_takeWhile_or_exists_value (word : Bytes) :
    word = word.takeWhile (· ≠ equalsSign) ∨
      ∃ value, word = word.takeWhile (· ≠ equalsSign) ++ equalsSign :: value := by
  induction word with
  | nil => exact .inl rfl
  | cons first rest ih =>
    by_cases sign : first = equalsSign
    next => exact .inr ⟨rest, by simp [sign]⟩
    next => simpa [sign] using ih

theorem exists_switch_of_readWord {rest : Bytes} {advance : Advance} (nonempty : rest ≠ [])
    (read : readWord draft next? (hyphen :: hyphen :: rest) = .ok advance) :
    ∃ switch : Switch, hyphen :: hyphen :: rest = switch.word ∨
      ∃ value, hyphen :: hyphen :: rest = switch.word ++ equalsSign :: value := by
  rw [readWord, if_neg (by simp [nonempty]), if_neg (by simp [isValue])] at read
  cases found : Switch.ofName? (rest.takeWhile (· ≠ equalsSign)) with
  | none =>
    simp only [dropStart?, if_true, found] at read
    cases read
  | some switch =>
    have named := Switch.ofName?_eq_some_iff.1 found
    refine ⟨switch, ?_⟩
    have parts := eq_takeWhile_or_exists_value rest
    rw [named] at parts
    simpa [Switch.word] using parts

theorem exists_spellsWord {word : Bytes} {advance : Advance}
    (read : readWord draft next? word = .ok advance)
    (unanswered : advance ≠ .done .help ∧ advance ≠ .done .version) :
    word = [hyphen, hyphen] ∨
      (∃ taken arguments, SpellsWord word taken arguments ∧
        ∀ value, taken = some value → next? = some value) ∨
      word = Switch.list.word ∧ ∀ next, next? = some next → isValue next = false := by
  by_cases value : isValue word
  next => exact .inr (.inl ⟨none, [.root word], .root value, nofun⟩)
  next =>
    obtain ⟨letters, nonempty, rfl⟩ := exists_letters_of_not_isValue value
    by_cases single : letters.head? = some hyphen
    next =>
      obtain ⟨rest, rfl⟩ := List.head?_eq_some_iff.1 single
      by_cases dashes : rest = []
      next => exact .inl (by rw [dashes])
      next =>
        refine .inr ?_
        obtain ⟨switch, same | ⟨value, same⟩⟩ := exists_switch_of_readWord dashes read
        next =>
          rw [same, readWord_switch] at read
          rw [same]
          rcases exists_spellsWord_of_readSwitch read unanswered with spelled | ⟨rfl, alone⟩
          next => exact .inl spelled
          next => exact .inr ⟨rfl, alone⟩
        next =>
          rw [same, readWord_assigned] at read
          rw [same]
          obtain ⟨arguments, spells⟩ := exists_spellsWord_of_assigned read
          exact .inl ⟨none, arguments, spells, nofun⟩
    next =>
      rw [readWord_letters nonempty single] at read
      obtain ⟨taken, arguments, spells, follows⟩ := exists_spellsLetters read unanswered
      exact .inr (.inl ⟨taken, arguments, .letters nonempty spells, follows⟩)

end Words

theorem readWords_of_spells {words : List Bytes} {arguments : List Argument}
    (spells : Spells words arguments) (setting : Option Bytes) (draft : Draft) :
    readWords setting draft words =
      (Argument.applyAll draft arguments).bind fun draft => (draft.finish setting).map .run := by
  induction spells generalizing draft with
  | nil => rfl
  | roots words =>
    have dashes : readWord draft words.head? [hyphen, hyphen] = .ok (.rootsOnly draft) := rfl
    rw [readWords_cons, ← readRoots_eq_applyAll, dashes]
    dsimp only
    cases readRoots draft words <;> rfl
  | word first rest ih =>
    rw [readWords_cons, readWord_of_spells first nofun, Argument.applyAll_append]
    cases Argument.applyAll draft _ with
    | error problem => rfl
    | ok next => exact ih next
  | withValue first rest ih =>
    rw [readWords_cons, List.head?_cons, readWord_of_spells first (fun _ same => same),
      Argument.applyAll_append]
    cases Argument.applyAll draft _ with
    | error problem => rfl
    | ok next => exact ih next
  | list alone rest ih =>
    rw [readWords_cons, readWord_switch, readSwitch, readList_alone alone, Argument.applyAll,
      Argument.apply]
    cases draft.withFormat .plain with
    | error problem => rfl
    | ok next => exact ih next

theorem exists_spells {setting : Option Bytes} {draft : Draft} {options : Options}
    {words : List Bytes} (read : readWords setting draft words = .ok (.run options)) :
    ∃ arguments, Spells words arguments := by
  -- A word may take the next one with it, so the induction is on the number of words.
  induction count : words.length using Nat.strongRecOn generalizing draft words with
  | ind count ih =>
  subst count
  cases words with
  | nil => exact ⟨[], .nil⟩
  | cons word words =>
    rw [readWords_cons] at read
    cases step : readWord draft words.head? word with
    | error problem => simp [step] at read
    | ok advance =>
      rw [step] at read
      have unanswered : advance ≠ .done .help ∧ advance ≠ .done .version := by
        constructor <;> (rintro rfl; cases read)
      rcases exists_spellsWord step unanswered with
        rfl | ⟨taken, arguments, first, follows⟩ | ⟨rfl, alone⟩
      next => exact ⟨_, .roots words⟩
      next =>
        rw [readWord_of_spells first follows] at step
        cases applied : Argument.applyAll draft arguments with
        | error problem => simp [applied, Except.map] at step
        | ok next =>
          rw [applied] at step
          cases step
          cases taken with
          | none =>
            obtain ⟨others, rest⟩ := ih _ (by simp) read rfl
            exact ⟨_, .word first rest⟩
          | some value =>
            obtain ⟨rest, rfl⟩ := List.head?_eq_some_iff.1 (follows value rfl)
            have fewer : rest.length < (word :: value :: rest).length := by
              simp only [List.length_cons]
              omega
            obtain ⟨others, spells⟩ := ih _ fewer read rfl
            exact ⟨_, .withValue first spells⟩
      next =>
        rw [readWord_switch, readSwitch, readList_alone alone] at step
        cases listed : draft.withFormat .plain with
        | error problem => simp [listed, Except.map] at step
        | ok next =>
          rw [listed] at step
          cases step
          obtain ⟨others, rest⟩ := ih _ (by simp) read rfl
          exact ⟨_, .list alone rest⟩

theorem answers_of_read {setting : Option Bytes} {words : List Bytes} {arguments : List Argument}
    {options : Options} (spells : Spells words arguments)
    (read : read setting words = .ok (.run options)) : options.Answers setting arguments := by
  rw [CommandLine.read, readWords_of_spells spells] at read
  cases applied : Argument.applyAll .blank arguments with
  | error problem => simp [applied, Except.bind] at read
  | ok draft =>
    have holds : draft.Holds arguments := Draft.holds_blank.applyAll applied
    cases finished : draft.finish setting with
    | error problem => simp [applied, finished, Except.bind, Except.map] at read
    | ok ready =>
      simp only [applied, finished, Except.bind, Except.map, Except.ok.injEq,
        Request.run.injEq] at read
      subst read
      exact holds.answers finished

end CommandLine

end SourceBook
