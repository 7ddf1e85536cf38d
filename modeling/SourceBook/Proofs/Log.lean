import Mathlib.Data.List.Forall2
import Mathlib.Data.List.TakeWhile
import SourceBook.Log.Console
import SourceBook.Proofs.Text.Encoding

set_option autoImplicit false

namespace SourceBook

namespace Level

def tag : Level → String
  | error => "ERROR"
  | warn => " WARN"
  | info => " INFO"
  | debug => "DEBUG"
  | trace => "TRACE"

theorem rank_error_le (level : Level) : error.rank ≤ level.rank := by
  cases level <;> decide

theorem rank_le_error_iff {level : Level} : level.rank ≤ error.rank ↔ level = error := by
  cases level <;> decide

theorem rank_le (level : Level) : level.rank ≤ 5 := by
  cases level <;> decide

theorem rank_ofFlags (verbose : Nat) : (ofFlags false verbose).rank = min (verbose + 2) 5 := by
  match verbose with
  | 0 | 1 | 2 => rfl
  | verbose + 3 =>
    simp only [ofFlags, rank]
    omega

theorem rank_ofFlags_le {quiet otherQuiet : Bool} {verbose more : Nat}
    (noLouder : quiet = true ∨ otherQuiet = false ∧ min verbose 3 ≤ more) :
    (ofFlags quiet verbose).rank ≤ (ofFlags otherQuiet more).rank := by
  cases quiet with
  | true => exact rank_error_le _
  | false =>
    obtain ⟨rfl, fewer⟩ := noLouder.resolve_left nofun
    rw [rank_ofFlags, rank_ofFlags]
    omega

end Level

namespace Event

inductive ShowsChar : Char → String → Prop where
  | escape : ShowsChar '\x1b' "\\x1b"
  | bell : ShowsChar '\x07' "\\x07"
  | backspace : ShowsChar '\x08' "\\x08"
  | formFeed : ShowsChar '\x0c' "\\x0c"
  | delete : ShowsChar '\x7f' "\\x7f"
  | control {c : Char} (atLeast : 0x80 ≤ c.toNat) (below : c.toNat < 0xA0) :
      ShowsChar c ("\\u\x7b" ++ String.ofList (Nat.toDigits 16 c.toNat) ++ "\x7d")
  | plain {c : Char} (harmless : c ∉ ['\x1b', '\x07', '\x08', '\x0c', '\x7f'])
      (outside : ¬(0x80 ≤ c.toNat ∧ c.toNat < 0xA0)) : ShowsChar c (String.singleton c)

inductive Written (event : Event) : String → Prop where
  | line {parts : List String} (shown : List.Forall₂ ShowsChar event.message.toList parts) :
      event.Written (event.level.tag ++ " " ++ String.join parts ++ "\n")

theorem hexDigits_eq {code : Nat} (atLeast : 0x10 ≤ code) (below : code < 0x100) :
    hexDigits code = Nat.toDigits 16 code := by
  rw [Nat.toDigits_of_base_le (by decide) atLeast, Nat.toDigits_of_lt_base (by omega)]
  rfl

theorem showsChar_escapeChar (c : Char) : ShowsChar c (String.ofList (escapeChar c)) := by
  rw [escapeChar]
  by_cases steering : c ∈ ['\x1b', '\x07', '\x08', '\x0c', '\x7f']
  next =>
    rw [if_pos steering]
    simp only [List.mem_cons, List.not_mem_nil, or_false] at steering
    rcases steering with rfl | rfl | rfl | rfl | rfl
    next => exact .escape
    next => exact .bell
    next => exact .backspace
    next => exact .formFeed
    next => exact .delete
  next =>
    rw [if_neg steering]
    by_cases control : 0x80 ≤ c.toNat ∧ c.toNat < 0xA0
    next =>
      rw [if_pos control, hexDigits_eq (by omega) (by omega), String.ofList_append,
        String.ofList_append]
      exact .control control.1 control.2
    next =>
      rw [if_neg control]
      exact .plain steering control

theorem join_map_ofList {α : Type} (toChars : α → List Char) (items : List α) :
    String.join (items.map fun item => String.ofList (toChars item)) =
      String.ofList (items.flatMap toChars) := by
  induction items with
  | nil => rfl
  | cons item rest ih =>
    rw [List.map_cons, String.join_cons, ih, List.flatMap_cons, String.ofList_append]

theorem paddedLabel_eq (level : Level) : paddedLabel level = level.tag := by
  cases level <;> decide

theorem written_line (event : Event) : event.Written event.line := by
  rw [line, paddedLabel_eq, ← join_map_ofList]
  refine .line (List.forall₂_map_right_iff.2 (List.forall₂_same.2 ?_))
  exact fun c _ => showsChar_escapeChar c

end Event

inductive SpellsLevel : List Char → Prop where
  | named {word : List Char}
      (name : word.map Char.toLower ∈
        ["off", "error", "warn", "info", "debug", "trace"].map String.toList) : SpellsLevel word
  | numbered {sign : List Char} {digit : Char} (signed : sign = [] ∨ sign = ['+']) (zeros : Nat)
      (small : digit ∈ ['0', '1', '2', '3', '4', '5']) :
      SpellsLevel (sign ++ List.replicate zeros '0' ++ [digit])

namespace Threshold

theorem mem_all (threshold : Threshold) : threshold ∈ all := by
  rcases threshold with _ | level
  next => decide
  next => cases level <;> decide

theorem digit_ne_plus (threshold : Threshold) : threshold.digit ≠ '+' := by
  rcases threshold with _ | level
  next => decide
  next => cases level <;> decide

theorem getLast?_dropLast_zeros_iff {digits : List Char} {last : Char} :
    (digits.getLast? = some last ∧ digits.dropLast.all (· = '0')) ↔
      ∃ zeros, digits = List.replicate zeros '0' ++ [last] := by
  constructor
  next =>
    rintro ⟨ends, zeros⟩
    obtain ⟨front, rfl⟩ := List.getLast?_eq_some_iff.1 ends
    rw [List.dropLast_concat, List.all_eq_true] at zeros
    refine ⟨front.length, ?_⟩
    rw [List.eq_replicate_iff.2 ⟨rfl, fun c member => of_decide_eq_true (zeros c member)⟩,
      List.length_replicate]
  next =>
    rintro ⟨zeros, rfl⟩
    simp

theorem dropStart?_plus_zeros (threshold : Threshold) (zeros : Nat) :
    dropStart? ['+'] (List.replicate zeros '0' ++ [threshold.digit]) = none := by
  cases zeros with
  | zero => simp [dropStart?, threshold.digit_ne_plus.symm]
  | succ zeros => simp [dropStart?, List.replicate_succ]

theorem isNumbered_iff {threshold : Threshold} {word : List Char} :
    threshold.isNumbered word ↔ ∃ sign zeros, (sign = [] ∨ sign = ['+']) ∧
      word = sign ++ List.replicate zeros '0' ++ [threshold.digit] := by
  rw [isNumbered, Bool.and_eq_true, decide_eq_true_iff, getLast?_dropLast_zeros_iff]
  constructor
  next =>
    rintro ⟨zeros, digits⟩
    cases signed : dropStart? ['+'] word with
    | some rest =>
      rw [signed, Option.getD_some] at digits
      refine ⟨['+'], zeros, .inr rfl, ?_⟩
      rw [dropStart?_eq_some_iff.1 signed, digits, List.append_assoc]
    | none =>
      rw [signed, Option.getD_none] at digits
      exact ⟨[], zeros, .inl rfl, digits⟩
  next =>
    rintro ⟨sign, zeros, rfl | rfl, rfl⟩
    next => exact ⟨zeros, by rw [List.nil_append, dropStart?_plus_zeros, Option.getD_none]⟩
    next => exact ⟨zeros, by rw [List.append_assoc, dropStart?_append, Option.getD_some]⟩

theorem exists_isNamed_iff {word : List Char} :
    (∃ threshold : Threshold, threshold.isNamed word) ↔
      word.map Char.toLower ∈
        ["off", "error", "warn", "info", "debug", "trace"].map String.toList := by
  have names : ["off", "error", "warn", "info", "debug", "trace"] = all.map name := rfl
  rw [names, List.map_map, List.mem_map]
  constructor
  next =>
    rintro ⟨threshold, named⟩
    exact ⟨threshold, threshold.mem_all, (of_decide_eq_true named).symm⟩
  next =>
    rintro ⟨threshold, -, same⟩
    exact ⟨threshold, decide_eq_true same.symm⟩

theorem isSome_read?_iff {word : List Char} : (read? word).isSome ↔ SpellsLevel word := by
  rw [read?, List.find?_isSome]
  constructor
  next =>
    rintro ⟨threshold, -, spelled⟩
    rcases Bool.or_eq_true_iff.1 spelled with named | numbered
    next => exact .named (exists_isNamed_iff.1 ⟨threshold, named⟩)
    next =>
      obtain ⟨sign, zeros, signed, rfl⟩ := isNumbered_iff.1 numbered
      have digits : all.map digit = ['0', '1', '2', '3', '4', '5'] := by decide
      exact .numbered signed zeros (digits ▸ List.mem_map_of_mem threshold.mem_all)
  next =>
    intro spells
    cases spells with
    | named name =>
      obtain ⟨threshold, named⟩ := exists_isNamed_iff.2 name
      exact ⟨threshold, threshold.mem_all, Bool.or_eq_true_iff.2 (.inl named)⟩
    | @numbered sign digit signed zeros small =>
      have digits : ['0', '1', '2', '3', '4', '5'] = all.map Threshold.digit := by decide
      rw [digits, List.mem_map] at small
      obtain ⟨threshold, member, rfl⟩ := small
      refine ⟨threshold, member, Bool.or_eq_true_iff.2 (.inr ?_)⟩
      exact isNumbered_iff.2 ⟨sign, zeros, signed, rfl⟩

end Threshold

-- A word without a level asks for everything of its target.
inductive SpellsDirective : List Char → Prop where
  | bare {first : Char} {rest : List Char}
      (starts : first.isAlphanum ∨ first ∈ ['-', ':', '_', '['] ∨ 0x80 ≤ first.toNat)
      (whole : '=' ∉ first :: rest) : SpellsDirective (first :: rest)
  | leveled {first : Char} {rest level : List Char}
      (starts : first.isAlphanum ∨ first ∈ ['-', ':', '_', '['] ∨ 0x80 ≤ first.toNat)
      (whole : '=' ∉ first :: rest) (spells : level = [] ∨ SpellsLevel level) :
      SpellsDirective (first :: rest ++ '=' :: level)

namespace Directive

theorem canStart_iff {c : Char} :
    canStart c ↔ c.isAlphanum ∨ c ∈ ['-', ':', '_', '['] ∨ 0x80 ≤ c.toNat := by
  simp only [canStart, Bool.or_eq_true, decide_eq_true_eq, or_assoc]

theorem takeWhile_append_equals {target : List Char} (whole : '=' ∉ target) (rest : List Char) :
    (target ++ '=' :: rest).takeWhile (· ≠ '=') = target ∧
      (target ++ '=' :: rest).dropWhile (· ≠ '=') = '=' :: rest := by
  have passed : ∀ c ∈ target, decide (c ≠ '=') = true :=
    fun c member => decide_eq_true fun same => whole (same ▸ member)
  rw [List.takeWhile_append_of_pos passed, List.dropWhile_append_of_pos passed]
  simp

theorem isSome_read?_bare {first : Char} {rest : List Char} (starts : canStart first)
    (whole : '=' ∉ first :: rest) : (read? (first :: rest)).isSome := by
  have absent : (first :: rest).dropWhile (· ≠ '=') = [] := by
    apply List.dropWhile_eq_nil_iff.2
    exact fun c member => decide_eq_true fun same => whole (same ▸ member)
  rw [read?, if_pos starts, absent]
  dsimp only
  split <;> rfl

theorem isSome_read?_leveled {first : Char} {rest level : List Char} (starts : canStart first)
    (whole : '=' ∉ first :: rest) :
    (read? (first :: rest ++ '=' :: level)).isSome ↔ level = [] ∨ SpellsLevel level := by
  obtain ⟨target, behind⟩ := takeWhile_append_equals whole level
  rw [List.cons_append] at target behind ⊢
  rw [read?, if_pos starts, target, behind, ← Threshold.isSome_read?_iff]
  cases level with
  | nil => simp
  | cons c level => simp

theorem isSome_read?_iff {word : List Char} : (read? word).isSome ↔ SpellsDirective word := by
  constructor
  next =>
    intro spelled
    cases word with
    | nil => contradiction
    | cons first rest =>
      have starts : canStart first := by
        by_contra unfit
        simp [read?, unfit] at spelled
      by_cases divided : '=' ∈ first :: rest
      next =>
        obtain ⟨target, level, split, whole⟩ := List.eq_append_cons_of_mem divided
        cases target with
        | nil =>
          obtain rfl := (List.cons.inj split).1
          contradiction
        | cons head target =>
          obtain rfl := (List.cons.inj split).1
          rw [split] at spelled ⊢
          exact .leveled (canStart_iff.1 starts) whole ((isSome_read?_leveled starts whole).1 spelled)
      next => exact .bare (canStart_iff.1 starts) divided
  next =>
    intro spells
    cases spells with
    | bare starts whole => exact isSome_read?_bare (canStart_iff.2 starts) whole
    | leveled starts whole level =>
      exact (isSome_read?_leveled (canStart_iff.2 starts) whole).2 level

end Directive

namespace Filter

def HoldsDirective (setting : Option Bytes) : Prop :=
  ∃ text : String, setting = some (Utf8.encode text) ∧
    ∃ word ∈ splitAtEach ',' text.toList, SpellsDirective word

theorem holdsDirective_iff {setting : Option Bytes} :
    HoldsDirective setting ↔
      ∃ text, setting.bind Utf8.decode? = some text ∧ readDirectives text ≠ [] := by
  apply exists_congr
  intro text
  refine and_congr ?_ ?_
  next =>
    rw [Option.bind_eq_some_iff]
    constructor
    next =>
      rintro rfl
      exact ⟨_, rfl, Utf8.decode?_encode text⟩
    next =>
      rintro ⟨bytes, rfl, decoded⟩
      rw [Utf8.decode?_eq_some_iff.1 decoded]
  next =>
    rw [readDirectives, ne_eq, List.filterMap_eq_nil_iff]
    simp only [← Directive.isSome_read?_iff, Option.isSome_iff_ne_none, not_forall, exists_prop]

theorem ofSetting_of_holdsDirective {text : String}
    (directed : HoldsDirective (some (Utf8.encode text))) (level : Level) :
    ofSetting (some (Utf8.encode text)) level = ⟨readDirectives text⟩ := by
  obtain ⟨other, decoded, nonempty⟩ := holdsDirective_iff.1 directed
  rw [Option.bind_some, Utf8.decode?_encode, Option.some.injEq] at decoded
  subst decoded
  rw [ofSetting, Option.bind_some, Utf8.decode?_encode]
  dsimp only
  cases read : readDirectives text with
  | nil => contradiction
  | cons first rest => rfl

theorem ofSetting_of_not_holdsDirective {setting : Option Bytes}
    (undirected : ¬HoldsDirective setting) (level : Level) :
    ofSetting setting level = upTo level := by
  rw [ofSetting]
  split
  next => rfl
  next text decoded =>
    have empty : readDirectives text = [] := by
      by_contra directed
      exact undirected (holdsDirective_iff.2 ⟨text, decoded, directed⟩)
    rw [empty]

theorem shows_upTo (level : Level) (event : Event) :
    (upTo level).shows event = decide (event.level.rank ≤ level.rank) := rfl

end Filter

def Directive.Fits (directive : Directive) (origin : Origin) : Prop :=
  directive.target <+: origin.path.toList

namespace Filter

-- Of two directives with one target the later counts.
inductive Decides (origin : Origin) : List Directive → Directive → Prop where
  | intro {before after : List Directive} {directive : Directive} (fits : directive.Fits origin)
      (longest : ∀ other ∈ before, other.Fits origin →
        other.target.length ≤ directive.target.length)
      (last : ∀ other ∈ after, other.Fits origin →
        other.target.length < directive.target.length) :
      Decides origin (before ++ directive :: after) directive

section Choose

variable {origin : Origin} {taken : List Directive}

def Chosen (origin : Origin) (taken : List Directive) : Option Directive → Prop
  | none => ∀ directive ∈ taken, ¬directive.Fits origin
  | some best => Decides origin taken best

theorem Decides.concat {best directive : Directive} (decides : Decides origin taken best)
    (shorter : directive.Fits origin → directive.target.length < best.target.length) :
    Decides origin (taken ++ [directive]) best := by
  rcases decides with ⟨fits, longest, last⟩
  rw [List.append_assoc, List.cons_append]
  refine .intro fits longest ?_
  exact List.forall_mem_append.2 ⟨last, List.forall_mem_singleton.2 shorter⟩

theorem Decides.length_le {best other : Directive} (decides : Decides origin taken best)
    (member : other ∈ taken) (fits : other.Fits origin) :
    other.target.length ≤ best.target.length := by
  rcases decides with ⟨-, longest, last⟩
  rcases List.mem_append.1 member with before | here
  next => exact longest other before fits
  next =>
    rcases List.mem_cons.1 here with rfl | after
    next => exact Nat.le_refl _
    next => exact Nat.le_of_lt (last other after fits)

theorem Decides.fits {best : Directive} (decides : Decides origin taken best) :
    best ∈ taken ∧ best.Fits origin := by
  rcases decides with ⟨fits, -, -⟩
  exact ⟨List.mem_append_right _ List.mem_cons_self, fits⟩

theorem Decides.eq {best other : Directive} (decides : Decides origin taken best)
    (alsoDecides : Decides origin taken other) : best = other := by
  generalize whole : taken = directives at alsoDecides
  rcases decides with @⟨before, after, _, fits, longest, last⟩
  rcases alsoDecides with @⟨otherBefore, otherAfter, _, otherFits, otherLongest, otherLast⟩
  rcases List.append_eq_append_iff.1 whole with ⟨between, rfl, rest⟩ | ⟨between, rfl, rest⟩
  next =>
    cases between with
    | nil => exact (List.cons.inj rest).1
    | cons head between =>
      obtain ⟨rfl, rfl⟩ := List.cons.inj rest
      have less := last other (List.mem_append_right _ List.mem_cons_self) otherFits
      have atMost := otherLongest best (List.mem_append_right _ List.mem_cons_self) fits
      omega
  next =>
    cases between with
    | nil => exact (List.cons.inj rest).1.symm
    | cons head between =>
      obtain ⟨rfl, rfl⟩ := List.cons.inj rest
      have less := otherLast best (List.mem_append_right _ List.mem_cons_self) fits
      have atMost := longest other (List.mem_append_right _ List.mem_cons_self) otherFits
      omega

theorem Chosen.choose {best? : Option Directive} (chosen : Chosen origin taken best?)
    (directive : Directive) :
    Chosen origin (taken ++ [directive]) (Filter.choose origin best? directive) := by
  unfold Filter.choose
  split
  next matched =>
    have fits : directive.Fits origin := List.isPrefixOf_iff_prefix.1 matched
    cases best? with
    | none => exact .intro fits (fun other member unfit => absurd unfit (chosen other member)) nofun
    | some best =>
      dsimp only
      split
      next longer =>
        refine .intro fits ?_ nofun
        exact fun other member otherFits =>
          Nat.le_trans (Decides.length_le chosen member otherFits) longer
      next shorter => exact Decides.concat chosen fun _ => Nat.lt_of_not_le shorter
  next unmatched =>
    have unfit : ¬directive.Fits origin := mt List.isPrefixOf_iff_prefix.2 unmatched
    cases best? with
    | none => exact List.forall_mem_append.2 ⟨chosen, List.forall_mem_singleton.2 unfit⟩
    | some best => exact Decides.concat chosen fun fits => absurd fits unfit

theorem Chosen.foldl {best? : Option Directive} (chosen : Chosen origin taken best?)
    (rest : List Directive) :
    Chosen origin (taken ++ rest) (rest.foldl (Filter.choose origin) best?) := by
  induction rest generalizing taken best? with
  | nil => rwa [List.append_nil]
  | cons directive rest ih =>
    rw [List.append_cons]
    exact ih (chosen.choose directive)

end Choose

theorem shows_iff {filter : Filter} {event : Event} :
    filter.shows event ↔ ∃ directive, Decides event.origin filter.directives directive ∧
      directive.threshold.covers event.level := by
  have start : Chosen event.origin [] none := nofun
  have chosen := start.foldl filter.directives
  rw [List.nil_append] at chosen
  rw [shows, threshold?]
  cases best : filter.directives.foldl (choose event.origin) none with
  | none =>
    rw [best] at chosen
    refine iff_of_false nofun ?_
    rintro ⟨directive, decides, -⟩
    exact chosen directive decides.fits.1 decides.fits.2
  | some directive =>
    rw [best] at chosen
    constructor
    next => exact fun covered => ⟨directive, chosen, covered⟩
    next =>
      rintro ⟨other, decides, covered⟩
      rwa [chosen.eq decides]

end Filter

end SourceBook
