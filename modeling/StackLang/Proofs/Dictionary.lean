/-
Dictionaries after any history of definitions. What a dictionary answers is decided by the last
definition of each name and by what it started from: looking up, asking whether there is a word,
listing the names and counting them all agree on that, and defining a word tells what it replaces.
-/
import Mathlib.Data.String.Basic
import StackLang.Dictionary
import StackLang.Evaluation.Interpreter

namespace StackLang.Dictionary

variable (d : Dictionary) (name other : String) (p : Program Stack)

/-! ## One definition -/

/-- What an insertion does depends on whether the name is new. -/
theorem insert_eq :
    d.insert name p = match d.get? name with
      | none => (none, ⟨d.words.insertIfNew name p⟩)
      | some old => (some old, ⟨(d.words.insertIfNew name p).insert name p⟩) := by
  have h : d.words.getThenInsertIfNew? name p = (d.get? name, d.words.insertIfNew name p) :=
    Prod.ext Std.HashMap.getThenInsertIfNew?_fst Std.HashMap.getThenInsertIfNew?_snd
  rw [insert, h]
  cases d.get? name with
  | none => rfl
  | some old => rfl

/-- An insertion gives back what the name had before. -/
theorem insert_fst : (d.insert name p).1 = d.get? name := by
  rw [insert_eq]
  cases d.get? name with
  | none => rfl
  | some old => rfl

/-- After an insertion the name has the new program, and no other name has another one than before. -/
theorem get?_insert_snd :
    (d.insert name p).2.get? other = if name = other then some p else d.get? other := by
  rw [insert_eq]
  cases h : d.get? name with
  | none =>
    -- the name is new, so that nothing is in the way of the program
    have hmem : ¬ name ∈ d.words := by
      rw [Std.HashMap.mem_iff_isSome_getElem?]
      exact Option.not_isSome_iff_eq_none.2 h
    show (d.words.insertIfNew name p)[other]? = _
    rw [Std.HashMap.getElem?_insertIfNew]
    simp only [beq_iff_eq, hmem, not_false_eq_true, and_true]
    rfl
  | some old =>
    show ((d.words.insertIfNew name p).insert name p)[other]? = _
    rw [Std.HashMap.getElem?_insert, Std.HashMap.getElem?_insertIfNew]
    simp only [beq_iff_eq]
    split
    · rfl
    · rename_i hne
      rw [if_neg fun h => hne h.1]
      rfl

theorem previous_define : (d.define name p).previous = d.get? name := insert_fst d name p

theorem log_define : (d.define name p).log = if (d.get? name).isSome then [.redefined name] else [] := by
  rw [← insert_fst d name p]
  rfl

theorem get?_define :
    (d.define name p).dictionary.get? other = if name = other then some p else d.get? other :=
  get?_insert_snd d name other p

theorem get?_empty : empty.get? name = none := Std.HashMap.getElem?_empty

theorem get?_standard :
    standard.get? name =
      if "sum3" = name then some Words.sum3 else if "squared" = name then some Words.squared else none := by
  rw [standard, get?_define, get?_define, get?_empty]

theorem contains_eq_isSome_get? : d.contains name = (d.get? name).isSome :=
  Std.HashMap.contains_eq_isSome_getElem?

/-! ## The list of names -/

/-- The names are the keys, in another order. -/
theorem names_perm : d.names.Perm d.words.keys := List.mergeSort_perm _ _

theorem nodup_names : d.names.Nodup := (names_perm d).nodup_iff.2 Std.HashMap.nodup_keys

theorem names_sorted : d.names.Pairwise (· ≤ ·) := by
  have h : d.names.Pairwise fun s t => decide (s ≤ t) = true := by
    refine List.pairwise_mergeSort (fun a b c => ?_) (fun a b => ?_) d.words.keys
    · simp only [decide_eq_true_eq]
      exact String.le_trans
    · simp only [Bool.or_eq_true, decide_eq_true_eq]
      exact String.le_total a b
  exact h.imp of_decide_eq_true

/-- Sorted names of which no two are equal increase strictly. -/
theorem names_increasing : d.names.Pairwise (· < ·) := by
  refine (List.pairwise_and_iff.2 ⟨names_sorted d, nodup_names d⟩).imp ?_
  rintro s t ⟨hle, hne⟩
  exact lt_of_le_of_ne hle hne

theorem mem_names_iff : name ∈ d.names ↔ d.contains name = true := by
  rw [(names_perm d).mem_iff, Std.HashMap.mem_keys, Std.HashMap.mem_iff_contains]
  rfl

theorem length_names : d.names.length = d.size := (names_perm d).length_eq.trans Std.HashMap.length_keys

theorem isEmpty_iff : d.isEmpty = true ↔ d.size = 0 := by
  unfold isEmpty size
  rw [Std.HashMap.isEmpty_eq_size_eq_zero, beq_iff_eq]

/-! ## Histories -/

/-- The dictionary after some definitions, made one after the other. -/
def defineAll (history : List (String × Program Stack)) : Dictionary :=
  history.foldl (fun d word => (d.define word.1 word.2).dictionary) d

theorem defineAll_cons (word : String × Program Stack) (history : List (String × Program Stack)) :
    d.defineAll (word :: history) = (d.define word.1 word.2).dictionary.defineAll history := rfl

/-- The last definition of a name counts, and where there is none, what was there before. -/
theorem get?_defineAll (history : List (String × Program Stack)) :
    (d.defineAll history).get? name = (history.reverse.lookup name).or (d.get? name) := by
  induction history generalizing d with
  | nil => rfl
  | cons word history ih =>
    obtain ⟨defined, p⟩ := word
    rw [defineAll_cons, ih, get?_define, List.reverse_cons, List.lookup_append, Option.or_assoc]
    -- the first definition is the last one in the reversed history, in front of what was there before
    congr 1
    by_cases h : defined = name
    · rw [if_pos h, h, List.lookup_cons_self, Option.some_or]
    · have hb : (name == defined) = false := beq_false_of_ne (Ne.symm h)
      rw [if_neg h, List.lookup_cons, hb, List.lookup_nil, Option.none_or]

/-- After any history of definitions, a dictionary has under each name the program it was given last, which
evaluates as it did when it was given, or what was there at the start. Whether there is a word is whether
there is a program. One more definition tells which program had the name, is an event if there was one, and
changes no other name. The names are listed in increasing order, each once, and they are those of the
words; their number is that of the words. To start with, there are no words, or the sample words. -/
theorem define_history (start : Dictionary) (history : List (String × Program Stack)) :
    let d := start.defineAll history
    (∀ name, d.get? name = (history.reverse.lookup name).or (start.get? name)) ∧
    (∀ name p, history.reverse.lookup name = some p →
      ∃ q, d.get? name = some q ∧ ∀ (i : Interpreter) (s : Stack), i.runOn s q = i.runOn s p) ∧
    (∀ name, d.contains name = (d.get? name).isSome) ∧
    (∀ name p,
      (d.define name p).previous = d.get? name ∧
      (d.define name p).log = (if (d.get? name).isSome then [.redefined name] else []) ∧
      (d.define name p).dictionary.get? name = some p ∧
      ∀ other, other ≠ name → (d.define name p).dictionary.get? other = d.get? other) ∧
    (d.names.Pairwise (· < ·) ∧ d.names.Nodup ∧ (∀ name, name ∈ d.names ↔ d.contains name = true)) ∧
    (d.size = d.names.length ∧ (d.isEmpty = true ↔ d.size = 0)) ∧
    (∀ name, empty.get? name = none) ∧
    (standard.get? "squared" = some Words.squared ∧ standard.get? "sum3" = some Words.sum3 ∧
      ∀ name, name ≠ "squared" → name ≠ "sum3" → standard.get? name = none) := by
  intro d
  refine ⟨fun name => get?_defineAll start name history, fun name p h => ?_, contains_eq_isSome_get? d,
    fun name p => ⟨previous_define d name p, log_define d name p, ?_, fun other h => ?_⟩,
    ⟨names_increasing d, nodup_names d, mem_names_iff d⟩,
    ⟨(length_names d).symm, isEmpty_iff d⟩, get?_empty, ?_⟩
  · refine ⟨p, ?_, fun i s => rfl⟩
    rw [get?_defineAll, h, Option.some_or]
  · exact (get?_define d name name p).trans (if_pos rfl)
  · exact (get?_define d name other p).trans (if_neg (Ne.symm h))
  · refine ⟨by rw [get?_standard]; rfl, by rw [get?_standard]; rfl, fun name h1 h2 => ?_⟩
    rw [get?_standard, if_neg (Ne.symm h2), if_neg (Ne.symm h1)]

open Program in
/-- A sample word redefined twice, with another definition in between. -/
theorem define_history_redefined :
    let history := [("sum3", pop), ("twice", dup), ("sum3", swap)]
    let d := standard.defineAll history
    (history.reverse.lookup "sum3" = some swap ∧ d.get? "sum3" = some swap ∧
      ∃ q, d.get? "sum3" = some q ∧ ∀ (i : Interpreter) (s : Stack), i.runOn s q = i.runOn s swap) ∧
    ("squared" ≠ "twice" ∧ (d.define "twice" pop).dictionary.get? "squared" = d.get? "squared" ∧
      (d.define "twice" pop).log = [.redefined "twice"]) ∧
    ("twice" ≠ "squared" ∧ "twice" ≠ "sum3" ∧ standard.get? "twice" = none) := by
  intro history d
  obtain ⟨hget, heval, -, hdefine, -, -, -, -, -, hstandard⟩ := define_history standard history
  obtain ⟨-, hlog, -, hother⟩ := hdefine "twice" pop
  have htwice : (d.get? "twice").isSome = true := by rw [hget]; rfl
  rw [htwice] at hlog
  refine ⟨⟨rfl, hget "sum3", heval "sum3" swap rfl⟩, ⟨by decide, hother "squared" (by decide), hlog⟩,
    by decide, by decide, hstandard "twice" (by decide) (by decide)⟩

end StackLang.Dictionary
