/-
Reading the arguments of a command. A reading is followed by what it has been given once its pending values
are looked at: a positional argument fills the next place, a list of values takes as many as come, and the
option of the step limit may stand before the command's name or anywhere behind it. What starts with a dash
is taken for an option, so that a numeral with a minus sign is refused unless it stands behind `--`.
-/
import StackLang.CommandLine.Arguments
import StackLang.Proofs.Numeral

namespace StackLang.CommandLine

/-- Whether an argument starts with a dash. -/
def isDashed (arg : String) : Bool := arg.toList.head? == some '-'

theorem ofString_of_not_isDashed {arg : String} (h : isDashed arg = false) : Token.ofString arg = .plain := by
  unfold isDashed at h
  unfold Token.ofString
  split <;> simp_all

theorem isDashed_text (n : Nat) : isDashed (Text.Numeral.text n) = false := by
  obtain ⟨c, cs, hcs⟩ := List.exists_cons_of_ne_nil (Text.Numeral.ofNat_ne_nil n)
  have hc : c.isDigit = true := Text.Numeral.isDigit_of_mem_ofNat (by rw [hcs]; exact List.mem_cons_self)
  have hne : c ≠ '-' := Text.Numeral.ne_of_isDigit hc rfl
  simp [isDashed, Text.Numeral.text, hcs, hne]

/-! ## What a reading has been given -/

namespace Reading

/-- Once its pending values are looked at, the reading has been given `g` and has `slots` to come. -/
def Holds (r : Reading) (g : Given) (slots : List Slot) : Prop := r.settle = .ok ⟨g, none, false, slots⟩

variable {r : Reading} {g g' : Given} {slot : Slot} {slots : List Slot}

theorem holds_start (slots : List Slot) : (start slots).Holds .nothing slots := rfl

theorem holds_pending {vs : List String} (h : g.store slot vs.reverse = .ok g') :
    Holds ⟨g, some ⟨slot, vs⟩, false, slots⟩ g' slots := by
  simp only [Holds, settle, h]

theorem Holds.fields (h : r.Holds g slots) : r.waiting = false ∧ r.slots = slots := by
  obtain ⟨given, pending, waiting, places⟩ := r
  unfold Holds settle at h
  dsimp only at h
  split at h
  · cases h
    exact ⟨rfl, rfl⟩
  · split at h
    · cases h
      exact ⟨rfl, rfl⟩
    · cases h

/-- A positional argument fills the next place. -/
theorem Holds.takePositional {arg : String} (h : r.Holds g (slot :: slots)) (hslot : slot ≠ .values)
    (hg : g.store slot [arg] = .ok g') : ∃ r', r.takePositional? arg = some (.ok r') ∧ r'.Holds g' slots := by
  refine ⟨⟨g, some ⟨slot, [arg]⟩, false, slots⟩, ?_, holds_pending hg⟩
  unfold takePositional?
  rw [h.fields.2]
  split
  · rename_i heq; cases heq
  · rename_i heq; cases heq; exact absurd rfl hslot
  · rename_i heq
    cases heq
    rw [h]
    rfl

/-- A list of values takes one more. -/
theorem Holds.takeValue (h : r.Holds g (.values :: slots)) (arg : String) :
    ∃ r', r.takePositional? arg = some (.ok r') ∧
      r'.Holds { g with values := g.values ++ [arg] } (.values :: slots) := by
  obtain ⟨given, pending, waiting, places⟩ := r
  obtain ⟨rfl, rfl⟩ := h.fields
  unfold takePositional?
  dsimp only
  split
  · -- values are pending already: the new one comes behind them
    rename_i vs
    refine ⟨_, rfl, holds_pending ?_⟩
    cases h
    simp [Given.store]
  · refine ⟨⟨g, some ⟨.values, [arg]⟩, false, .values :: slots⟩, ?_, holds_pending rfl⟩
    rw [h]
    rfl

/-- The option of the step limit, given once. -/
theorem Holds.takeLimit (h : r.Holds g slots) (topic : Topic) :
    r.takeLong topic "max-steps" none = .ok ⟨g, some ⟨.maxSteps, []⟩, true, slots⟩ := by
  unfold takeLong
  rw [if_pos rfl, h]
  rfl

end Reading
/-! ## Levels -/

namespace Level

variable (level : Level) {r r' : Reading} {g : Given} {slots : List Slot}

theorem read_positional (hcommands : level.commands = []) {positionalOnly : Bool} {arg : String}
    (hplain : positionalOnly = true ∨ isDashed arg = false) (hwaiting : r.waiting = false)
    (h : r.takePositional? arg = some (.ok r')) (args : List String) :
    level.read positionalOnly r (arg :: args) = level.read positionalOnly r' args := by
  have hcommand : level.command? arg = none := by rw [command?, hcommands]; rfl
  have htoken : (if positionalOnly then .plain else Token.ofString arg) = Token.plain := by
    rcases hplain with rfl | hplain
    · rfl
    · rw [ofString_of_not_isDashed hplain, ite_self]
  rw [read, hwaiting, hcommand, ite_self, htoken]
  simp only [Bool.and_false, Bool.false_eq_true, if_false, h]
  rfl

/-- What starts with a dash and a character that is no option's is refused. -/
theorem read_dashed (hcommands : level.commands = []) {arg : String} {c : Char} {cs : List Char}
    (harg : arg.toList = '-' :: c :: cs) (hc : c.isDigit = true) (args : List String) :
    level.read false r (arg :: args) = .error (.usage (.unexpectedArgument (String.ofList ['-', c]))) := by
  have hcommand : level.command? arg = none := by rw [command?, hcommands]; rfl
  have hv : c ≠ 'v' := Text.Numeral.ne_of_isDigit hc rfl
  have hh : c ≠ 'h' := Text.Numeral.ne_of_isDigit hc rfl
  have hdash : c ≠ '-' := Text.Numeral.ne_of_isDigit hc rfl
  have htoken : Token.ofString arg = .short (c :: cs) := by
    unfold Token.ofString
    rw [harg]
    split <;> simp_all
  rw [read, hcommand, ite_self]
  simp only [Bool.false_eq_true, if_false, htoken, Reading.takeShort, hv, hh]
  rfl

theorem read_escape (hcommands : level.commands = []) (args : List String) :
    level.read false r ("--" :: args) = level.read true r args := by
  have hcommand : level.command? "--" = none := by rw [command?, hcommands]; rfl
  have htoken : Token.ofString "--" = .escape := rfl
  rw [read, hcommand, ite_self]
  simp only [Bool.false_eq_true, if_false, htoken]

/-- All values are taken, unless one of them looks like an option. -/
theorem read_values (hcommands : level.commands = []) {positionalOnly : Bool} {texts : List String}
    (hplain : positionalOnly = true ∨ ∀ t ∈ texts, isDashed t = false) (h : r.Holds g (.values :: slots))
    (args : List String) :
    ∃ r', level.read positionalOnly r (texts ++ args) = level.read positionalOnly r' args ∧
      r'.Holds { g with values := g.values ++ texts } (.values :: slots) := by
  induction texts generalizing r g with
  | nil => exact ⟨r, rfl, by rw [List.append_nil]; exact h⟩
  | cons t texts ih =>
    obtain ⟨r₁, htake, h₁⟩ := h.takeValue t
    have ht : positionalOnly = true ∨ isDashed t = false := hplain.imp_right fun hp => hp t List.mem_cons_self
    have hts := hplain.imp_right fun hp t' ht' => hp t' (List.mem_cons_of_mem t ht')
    obtain ⟨r₂, hread, h₂⟩ := ih hts h₁
    refine ⟨r₂, ?_, ?_⟩
    · rw [List.cons_append, read_positional level hcommands ht h.fields.1 htake, hread]
    · simpa only [List.append_assoc, List.singleton_append] using h₂

/-- The arguments that ask for a step limit. -/
def limitArgs : Option Nat → List String
  | none => []
  | some n => ["--max-steps", Text.Numeral.text n]

/-- The option of the step limit may stand wherever an option may. -/
theorem read_limit (hcommand : level.command? "--max-steps" = none) {limit : Option Nat}
    (hlimit : ∀ n ∈ limit, n < pow2 64) (hg : g.maxSteps = none) (h : r.Holds g slots) (args : List String) :
    ∃ r', level.read false r (limitArgs limit ++ args) = level.read false r' args ∧
      r'.Holds { g with maxSteps := limit } slots := by
  cases limit with
  | none => exact ⟨r, rfl, by rw [← hg]; exact h⟩
  | some n =>
    have htoken : Token.ofString "--max-steps" = .long "max-steps" none := rfl
    have hstore : g.store .maxSteps [Text.Numeral.text n] = .ok { g with maxSteps := some n } := by
      simp only [Given.store, hg, Option.isSome_none, Bool.false_eq_true, if_false, Text.Numeral.text,
        String.toList_ofList, Text.Numeral.readWord_ofNat (hlimit n rfl)]
    refine ⟨⟨g, some ⟨.maxSteps, [Text.Numeral.text n]⟩, false, slots⟩, ?_, Reading.holds_pending hstore⟩
    rw [limitArgs, List.cons_append, read, hcommand, ite_self]
    simp only [Bool.false_eq_true, if_false, htoken, h.takeLimit]
    show level.read false _ _ = _
    rw [List.singleton_append, read]
    simp only [Bool.false_or, if_true, ofString_of_not_isDashed (isDashed_text n), Bool.false_eq_true, if_false,
      Bool.not_false, Bool.true_and]

/-- Values are taken up to the first that looks like an option. -/
theorem read_values_dashed (hcommands : level.commands = []) {texts : List String} {t : String} {c : Char}
    {cs : List Char} (ht : texts.find? isDashed = some t) (hc : t.toList = '-' :: c :: cs) (hdigit : c.isDigit = true)
    (h : r.Holds g (.values :: slots)) (args : List String) :
    level.read false r (texts ++ args) = .error (.usage (.unexpectedArgument (String.ofList ['-', c]))) := by
  induction texts generalizing r g with
  | nil => cases ht
  | cons t' texts ih =>
    cases hd : isDashed t' with
    | true =>
      rw [List.find?_cons_of_pos hd] at ht
      cases ht
      exact read_dashed level hcommands hc hdigit _
    | false =>
      rw [List.find?_cons_of_neg (by rw [hd]; exact Bool.false_ne_true)] at ht
      obtain ⟨r₁, htake, h₁⟩ := h.takeValue t'
      rw [List.cons_append, read_positional level hcommands (Or.inr hd) h.fields.1 htake]
      exact ih ht h₁

end Level

/-! ## Commands -/

open Level

section Commands

variable {limit : Option Nat} (hlimit : ∀ n ∈ limit, n < pow2 64)

theorem readCommand_of_holds {command : Topic} (hne : command ≠ .help) {args : List String} {r : Reading} {g : Given}
    {slots : List Slot} {asked : Command}
    (hread : (inner command).read false (.start (inner command).slots) args = .ok (r, none)) (h : r.Holds g slots)
    (hasked : commandOf command g = .ok asked) : readCommand command args = .ok (g, asked) := by
  unfold readCommand
  rw [if_neg hne]
  dsimp only
  rw [hread]
  show (do let r ← r.settle; let asked ← commandOf command r.given; .ok (r.given, asked)) = _
  rw [h]
  show (do let asked ← commandOf command g; .ok (g, asked)) = _
  rw [hasked]
  rfl

theorem readCommand_of_error {command : Topic} (hne : command ≠ .help) {args : List String} {stop : Stop}
    (hread : (inner command).read false (.start (inner command).slots) args = .error stop) :
    readCommand command args = .error stop := by
  unfold readCommand
  rw [if_neg hne]
  dsimp only
  rw [hread]
  rfl

include hlimit

/-- What is read behind a command's name, and the limit before it. -/
theorem parse_command {topic : Topic} (htopic : topic ∈ Topic.commands) (args : List String) :
    parse (limitArgs limit ++ topic.name :: args) =
      (readCommand topic args).bind fun (g, asked) => .ok ⟨g.maxSteps.or limit, g.verbose, asked⟩ := by
  have hcommand : ∀ t ∈ Topic.commands, outer.command? t.name = some t := by decide
  obtain ⟨r, hread, hr⟩ := read_limit outer (by decide) hlimit rfl (Reading.holds_start [])
    (topic.name :: args)
  have hname : outer.read false r (topic.name :: args) = .ok (r, some (topic, args)) := by
    rw [Level.read, hr.fields.1, Bool.or_self, if_neg Bool.false_ne_true, hcommand topic htopic]
  unfold parse
  rw [hread, hname]
  show ((readCommand topic args) >>= fun x => r.settle >>= fun outer => _) = _
  rw [hr]
  cases readCommand topic args with
  | error stop => rfl
  | ok x =>
    obtain ⟨g, asked⟩ := x
    show Except.ok _ = Except.ok _
    simp [Given.nothing]

omit hlimit

/-- A command's name and its positional arguments, with the option for a step limit before the name or
anywhere behind it. -/
inductive Asks (limit : Option Nat) (topic : Topic) (places : List String) : List String → Prop
  | before : Asks limit topic places (limitArgs limit ++ topic.name :: places)
  | behind (xs ys : List String) :
      xs ++ ys = places → Asks limit topic places (topic.name :: (xs ++ (limitArgs limit ++ ys)))

include hlimit

/-- Wherever the option stands, it counts. -/
theorem Asks.parse_eq {topic : Topic} (htopic : topic ∈ Topic.commands) {places args : List String}
    (h : Asks limit topic places args) (outcome : Except Stop (Given × Command))
    (hread : ∀ l, (∀ n ∈ l, n < pow2 64) → ∀ xs ys, xs ++ ys = places →
      readCommand topic (xs ++ (limitArgs l ++ ys)) = outcome.map fun x => ({ x.1 with maxSteps := l }, x.2)) :
    parse args = outcome.map fun x => ⟨limit, x.1.verbose, x.2⟩ := by
  have hno : ∀ n ∈ (none : Option Nat), n < pow2 64 := by rintro n ⟨⟩
  cases h with
  | before =>
    have hread := hread none hno places [] (List.append_nil places)
    simp only [limitArgs, List.append_nil] at hread
    rw [parse_command hlimit htopic, hread]
    cases outcome <;> rfl
  | behind xs ys hplaces =>
    have hparse := parse_command hno htopic (xs ++ (limitArgs limit ++ ys))
    rw [hread limit hlimit xs ys hplaces] at hparse
    refine hparse.trans ?_
    cases outcome with
    | error stop => rfl
    | ok x =>
      show Except.ok _ = Except.ok _
      rw [Option.or_none]

/-! ### Evaluating a word -/

section Run

variable {word : String} (hword : isDashed word = false) {texts xs ys : List String}
include hword

/-- Some values are read before the option and the others behind it. -/
theorem read_run (hplaces : xs ++ ys = word :: texts) :
    ∃ pre post, pre ++ post = texts ∧
      ((∀ t ∈ pre, isDashed t = false) →
        ∃ r, (inner .run).read false (.start (inner .run).slots) (xs ++ (limitArgs limit ++ ys)) =
            (inner .run).read false r post ∧ r.Holds ⟨limit, false, some word, pre, none⟩ [.values]) ∧
      ∀ t c cs, pre.find? isDashed = some t → t.toList = '-' :: c :: cs → c.isDigit = true →
        (inner .run).read false (.start (inner .run).slots) (xs ++ (limitArgs limit ++ ys)) =
          .error (.usage (.unexpectedArgument (String.ofList ['-', c]))) := by
  have hstart := Reading.holds_start (inner .run).slots
  cases xs with
  | nil =>
    obtain rfl : ys = word :: texts := hplaces
    refine ⟨[], texts, rfl, fun _ => ?_, fun t c cs ht => by cases ht⟩
    obtain ⟨r₁, hread₁, h₁⟩ := read_limit (inner .run) rfl hlimit rfl hstart (word :: texts)
    obtain ⟨r₂, htake, h₂⟩ := h₁.takePositional (by decide) rfl
    refine ⟨r₂, ?_, h₂⟩
    rw [List.nil_append, hread₁, read_positional _ rfl (Or.inr hword) h₁.fields.1 htake]
  | cons x xs =>
    obtain ⟨rfl, rfl⟩ := List.cons.inj hplaces
    obtain ⟨r₁, htake, h₁⟩ := hstart.takePositional (by decide) rfl
    have hread₁ : (inner .run).read false (.start (inner .run).slots) (x :: (xs ++ (limitArgs limit ++ ys))) =
        (inner .run).read false r₁ (xs ++ (limitArgs limit ++ ys)) :=
      read_positional _ rfl (Or.inr hword) hstart.fields.1 htake _
    refine ⟨xs, ys, rfl, fun hxs => ?_, fun t c cs ht hc hdigit => ?_⟩
    · obtain ⟨r₂, hread₂, h₂⟩ := read_values (inner .run) rfl (Or.inr hxs) h₁ (limitArgs limit ++ ys)
      obtain ⟨r₃, hread₃, h₃⟩ := read_limit (inner .run) rfl hlimit rfl h₂ ys
      refine ⟨r₃, ?_, h₃⟩
      rw [List.cons_append, hread₁, hread₂, hread₃]
    · rw [List.cons_append, hread₁]
      exact read_values_dashed _ rfl ht hc hdigit h₁ _

theorem readCommand_run (htexts : ∀ t ∈ texts, isDashed t = false) (hplaces : xs ++ ys = word :: texts) :
    readCommand .run (xs ++ (limitArgs limit ++ ys)) =
      .ok (⟨limit, false, some word, texts, none⟩, .run word texts) := by
  obtain ⟨pre, post, rfl, hplain, -⟩ := read_run hlimit hword hplaces
  obtain ⟨r₁, hread₁, h₁⟩ := hplain fun t ht => htexts t (List.mem_append_left _ ht)
  obtain ⟨r₂, hread₂, h₂⟩ := read_values (inner .run) rfl
    (Or.inr fun t ht => htexts t (List.mem_append_right _ ht)) h₁ []
  rw [List.append_nil] at hread₂
  exact readCommand_of_holds (by decide) (hread₁.trans hread₂) h₂ rfl

theorem readCommand_run_dashed {t : String} {c : Char} {cs : List Char} (ht : texts.find? isDashed = some t)
    (hc : t.toList = '-' :: c :: cs) (hdigit : c.isDigit = true) (hplaces : xs ++ ys = word :: texts) :
    readCommand .run (xs ++ (limitArgs limit ++ ys)) =
      .error (.usage (.unexpectedArgument (String.ofList ['-', c]))) := by
  obtain ⟨pre, post, rfl, hplain, hdashed⟩ := read_run hlimit hword hplaces
  apply readCommand_of_error (by decide)
  cases hpre : pre.find? isDashed with
  | some t' =>
    rw [List.find?_append, hpre] at ht
    cases ht
    exact hdashed t c cs hpre hc hdigit
  | none =>
    rw [List.find?_append, hpre, Option.none_or] at ht
    obtain ⟨r, hread, h⟩ := hplain fun t ht => Bool.not_eq_true _ ▸ List.find?_eq_none.1 hpre t ht
    rw [hread, ← List.append_nil post]
    exact read_values_dashed _ rfl ht hc hdigit h []

omit hlimit

/-- Behind two dashes every value is taken. -/
theorem readCommand_run_escaped (texts : List String) :
    readCommand .run (word :: "--" :: texts) = .ok (⟨none, false, some word, texts, none⟩, .run word texts) := by
  have hstart := Reading.holds_start (inner .run).slots
  obtain ⟨r₁, htake, h₁⟩ := hstart.takePositional (by decide) rfl
  obtain ⟨r₂, hread₂, h₂⟩ := read_values (inner .run) rfl (Or.inl rfl) h₁ []
  refine readCommand_of_holds (by decide) (r := r₂) ?_ h₂ rfl
  rw [read_positional _ rfl (Or.inr hword) hstart.fields.1 htake, read_escape _ rfl, ← List.append_nil texts, hread₂]
  rfl

end Run

/-! ### Evaluating a factorial -/

section Factorial

omit hlimit

variable {text : String} {n : Int64} {xs ys : List String}

theorem store_number (g : Given) (hn : Text.Numeral.readInt64 text.toList = .ok n) :
    g.store .number [text] = .ok { g with number := some n } := by
  simp only [Given.store, hn]

include hlimit in
theorem readCommand_factorial (htext : isDashed text = false) (hn : Text.Numeral.readInt64 text.toList = .ok n)
    (hplaces : xs ++ ys = [text]) :
    readCommand .factorial (xs ++ (limitArgs limit ++ ys)) = .ok (⟨limit, false, none, [], some n⟩, .factorial n) := by
  have hstart := Reading.holds_start (inner .factorial).slots
  cases xs with
  | nil =>
    obtain rfl : ys = [text] := hplaces
    obtain ⟨r₁, hread₁, h₁⟩ := read_limit (inner .factorial) rfl hlimit rfl hstart [text]
    obtain ⟨r₂, htake, h₂⟩ := h₁.takePositional (by decide) (store_number _ hn)
    refine readCommand_of_holds (by decide) (r := r₂) ?_ h₂ rfl
    rw [List.nil_append, hread₁, read_positional _ rfl (Or.inr htext) h₁.fields.1 htake]
    rfl
  | cons x xs =>
    obtain ⟨rfl, hrest⟩ := List.cons.inj hplaces
    obtain ⟨rfl, rfl⟩ := List.append_eq_nil_iff.1 hrest
    obtain ⟨r₁, htake, h₁⟩ := hstart.takePositional (by decide) (store_number _ hn)
    obtain ⟨r₂, hread₂, h₂⟩ := read_limit (inner .factorial) rfl hlimit rfl h₁ []
    refine readCommand_of_holds (by decide) (r := r₂) ?_ h₂ rfl
    rw [List.singleton_append, read_positional _ rfl (Or.inr htext) hstart.fields.1 htake, hread₂]
    rfl

include hlimit in
theorem readCommand_factorial_dashed {c : Char} {cs : List Char} (hc : text.toList = '-' :: c :: cs)
    (hdigit : c.isDigit = true) (hplaces : xs ++ ys = [text]) :
    readCommand .factorial (xs ++ (limitArgs limit ++ ys)) =
      .error (.usage (.unexpectedArgument (String.ofList ['-', c]))) := by
  have hstart := Reading.holds_start (inner .factorial).slots
  apply readCommand_of_error (by decide)
  cases xs with
  | nil =>
    obtain rfl : ys = [text] := hplaces
    obtain ⟨r₁, hread₁, h₁⟩ := read_limit (inner .factorial) rfl hlimit rfl hstart [text]
    rw [List.nil_append, hread₁]
    exact read_dashed _ rfl hc hdigit []
  | cons x xs =>
    obtain ⟨rfl, -⟩ := List.cons.inj hplaces
    exact read_dashed _ rfl hc hdigit _

theorem readCommand_factorial_escaped (hn : Text.Numeral.readInt64 text.toList = .ok n) :
    readCommand .factorial ["--", text] = .ok (⟨none, false, none, [], some n⟩, .factorial n) := by
  have hstart := Reading.holds_start (inner .factorial).slots
  obtain ⟨r₁, htake, h₁⟩ := hstart.takePositional (by decide) (store_number _ hn)
  refine readCommand_of_holds (by decide) (r := r₁) ?_ h₁ rfl
  rw [read_escape _ rfl, read_positional _ rfl (Or.inl rfl) hstart.fields.1 htake]
  rfl

end Factorial

end Commands

end StackLang.CommandLine
