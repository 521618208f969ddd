import Mathlib.Order.Bounds.Defs
import TileScript.Proofs.Lines
import TileScript.Proofs.Rows

/-! # The grammar of scripts

A script is a sequence of plain lines and of blocks, which open with an `if`, close with an `end`
and are divided by any number of `else` lines. The check of a script accepts just these. The line it
reports otherwise is the first one up to which nothing can make the script one of them, or, if only
lines with `end` are missing, that of the innermost block still open.
-/

namespace TileScript

open Text

namespace Grammar

/-- An `if` line whose condition is a row of comparisons. -/
def IsBranch (line : List Char) : Prop :=
  ∃ condition n, line = "if ".toList ++ condition ∧
    Condition.Row (n + 1) (words (trim condition))

/-- A `var` line with a name that a variable can have and with a value. -/
def IsDefinition (line : List Char) : Prop :=
  ∃ name value, line = "var ".toList ++ (name ++ '=' :: value) ∧ '=' ∉ name ∧
    Statement.isDefinable (trim name) = true ∧ isAllBlank value = false

/-- A line that can stand anywhere. -/
def IsPlain (line : List Char) : Prop := Statement.Ordinary line ∨ IsDefinition line

/-- The branches of a block behind the first one, each behind an `else`. -/
def alternatives (others : List (List (List Char))) : List (List Char) :=
  others.flatMap ("else".toList :: ·)

/-- Lines in which all blocks are closed. -/
inductive Block : List (List Char) → Prop where

  | nil : Block []

  | plain {l : List Char} {ls : List (List Char)} : IsPlain l → Block ls → Block (l :: ls)

  | branch {l : List Char} {first ls : List (List Char)} {others : List (List (List Char))} :
      IsBranch l → Block first → (∀ b ∈ others, Block b) → Block ls →
      Block (l :: (first ++ (alternatives others ++ "end".toList :: ls)))

/-- The lines that may stand between an `if` and the place where its block goes on. -/
def Branches (ls : List (List Char)) : Prop :=
  ∃ first others, Block first ∧ (∀ b ∈ others, Block b) ∧ ls = first ++ alternatives others

/-- The lines that count: trimmed, and neither blank nor comments. -/
def content (ls : List (List Char)) : List (List Char) :=
  (ls.map trim).filter fun l => !(l.isEmpty || Statement.isComment l)

/-- A source that follows the grammar. -/
def Grammatical (source : String) : Prop := Block (content (lines source.toList))

section Blocks

variable {l : List Char} {ls ms : List (List Char)}

theorem Block.append (h : Block ls) (hm : Block ms) : Block (ls ++ ms) := by
  induction h with
  | nil => exact hm
  | plain hl _ ih => exact .plain hl ih
  | branch hl hf ho _ _ _ ih =>
    have hb := Block.branch hl hf ho ih
    simpa using hb

theorem Branches.nil : Branches [] := ⟨[], [], .nil, by simp, rfl⟩

theorem Branches.append (h : Branches ls) (hm : Block ms) : Branches (ls ++ ms) := by
  obtain ⟨first, others, hf, ho, rfl⟩ := h
  rcases List.eq_nil_or_concat others with rfl | ⟨os, o, rfl⟩
  · exact ⟨first ++ ms, [], hf.append hm, by simp, by simp [alternatives]⟩
  · refine ⟨first, os ++ [o ++ ms], hf, fun b hb => ?_, by simp [alternatives]⟩
    rcases List.mem_append.1 hb with hb | hb
    · exact ho b (by simp [hb])
    · obtain rfl := List.mem_singleton.1 hb
      exact (ho o (by simp)).append hm

theorem Branches.otherwise (h : Branches ls) : Branches (ls ++ ["else".toList]) := by
  obtain ⟨first, others, hf, ho, rfl⟩ := h
  refine ⟨first, others ++ [[]], hf, fun b hb => ?_, by simp [alternatives]⟩
  rcases List.mem_append.1 hb with hb | hb
  · exact ho b hb
  · obtain rfl := List.mem_singleton.1 hb
    exact .nil

theorem Branches.close (h : Branches ls) (hl : IsBranch l) :
    Block (l :: (ls ++ ["end".toList])) := by
  obtain ⟨first, others, hf, ho, rfl⟩ := h
  have hb := Block.branch hl hf ho .nil
  simpa using hb

theorem content_append (ls ms : List (List Char)) :
    content (ls ++ ms) = content ls ++ content ms := by
  simp [content]

theorem content_cons (l : List Char) (ls : List (List Char)) :
    content (l :: ls) =
      if (trim l).isEmpty || Statement.isComment (trim l) then content ls
      else trim l :: content ls := by
  rw [content, List.map_cons, List.filter_cons]
  cases (trim l).isEmpty || Statement.isComment (trim l) <;> simp [content]

theorem content_skipped (h : (trim l).isEmpty || Statement.isComment (trim l)) :
    content (l :: ls) = content ls := by
  rw [content_cons, if_pos h]

end Blocks

section Lines

variable {l : List Char} {n : Nat} {opened opened' : List Nat}

theorem ofLine_skipped (h : (trim l).isEmpty || Statement.isComment (trim l)) :
    Statement.ofLine l = .blank := by
  simp only [Statement.ofLine, h, if_true]

theorem ofLine_close (h : trim l = "end".toList) : Statement.ofLine l = .close := by
  unfold Statement.ofLine
  rw [h]
  rfl

theorem ofLine_otherwise (h : trim l = "else".toList) : Statement.ofLine l = .otherwise := by
  unfold Statement.ofLine
  rw [h]
  rfl

theorem statement_branch (h : IsBranch (trim l)) :
    Check.statement n opened (.ofLine l) = .ok (n :: opened) := by
  obtain ⟨condition, k, hl, hrow⟩ := h
  obtain ⟨b, hb⟩ := Check.condition_ok_iff.2 ⟨k, hrow⟩
  rw [Statement.ofLine_branch hl, Check.statement, hb]
  rfl

theorem statement_plain (h : IsPlain (trim l)) :
    Check.statement n opened (.ofLine l) = .ok opened := by
  rcases h with ho | ⟨name, value, hl, hn, hd, hv⟩
  · rw [Statement.ofLine_ordinary ho]
    split <;> rfl
  · rw [Statement.ofLine_declare hl, Check.statement, Statement.splitDefinition_eq hn hd]
    simp only [bind, Except.bind, hv]
    rfl

theorem not_skipped_of_isPlain {t : List Char} (h : IsPlain t) :
    (t.isEmpty || Statement.isComment t) = false := by
  rcases h with ho | ⟨name, value, rfl, -⟩
  · simp [ho.ne_nil, ho.not_comment]
  · rfl

theorem not_skipped_of_isBranch {t : List Char} (h : IsBranch t) :
    (t.isEmpty || Statement.isComment t) = false := by
  obtain ⟨condition, n, rfl, -⟩ := h
  rfl

/-- What a line has to be for the check to go on. -/
inductive Admitted (n : Nat) (l : List Char) : List Nat → List Nat → Prop where

  | quiet {opened : List Nat} : Block (content [l]) → Admitted n l opened opened

  | branch {opened : List Nat} : IsBranch (trim l) → Admitted n l opened (n :: opened)

  | otherwise {m : Nat} {opened : List Nat} :
      trim l = "else".toList → Admitted n l (m :: opened) (m :: opened)

  | close {m : Nat} {opened : List Nat} :
      trim l = "end".toList → Admitted n l (m :: opened) opened

theorem block_of_isPlain (h : IsPlain (trim l)) : Block (content [l]) := by
  rw [content_cons, not_skipped_of_isPlain h]
  exact .plain h .nil

theorem of_statement_branch {condition : List Char}
    (h : Check.statement n opened (.branch condition) = .ok opened') :
    opened' = n :: opened ∧ ∃ k, Condition.Row (k + 1) (words condition) := by
  rw [Check.statement] at h
  cases hc : Check.condition condition with
  | error e => simp [hc, bind, Except.bind] at h
  | ok b =>
    rw [hc] at h
    cases h
    exact ⟨rfl, Check.condition_ok_iff.1 ⟨b, hc⟩⟩

theorem of_statement_declare {d : List Char}
    (h : Check.statement n opened (.declare d) = .ok opened') :
    opened' = opened ∧ IsDefinition ("var ".toList ++ d) := by
  rw [Check.statement] at h
  cases hd : Statement.splitDefinition d with
  | error e => simp [hd, bind, Except.bind] at h
  | ok x =>
    simp only [hd, bind, Except.bind] at h
    split at h
    · cases h
    · next hv =>
      cases h
      obtain ⟨name, rfl, hn, hname⟩ := Statement.of_splitDefinition hd
      exact ⟨rfl, name, x.2, rfl, hn, hname, by simpa using hv⟩

theorem ofLine_ne (hs : ((trim l).isEmpty || Statement.isComment (trim l)) ≠ true)
    (hc : trim l ≠ "end".toList) (ho : trim l ≠ "else".toList) :
    Statement.ofLine l ≠ .blank ∧ Statement.ofLine l ≠ .close ∧
      Statement.ofLine l ≠ .otherwise := by
  unfold Statement.ofLine
  dsimp only
  rw [if_neg hs, if_neg hc, if_neg ho]
  repeat' split
  all_goals simp

theorem admitted_of_statement (h : Check.statement n opened (.ofLine l) = .ok opened') :
    Admitted n l opened opened' := by
  by_cases hs : (trim l).isEmpty || Statement.isComment (trim l)
  · rw [ofLine_skipped hs] at h
    cases h
    refine .quiet ?_
    rw [content_skipped hs]
    exact .nil
  by_cases hc : trim l = "end".toList
  · rw [ofLine_close hc] at h
    cases opened with
    | nil => cases h
    | cons m opened =>
      cases h
      exact .close hc
  by_cases ho : trim l = "else".toList
  · rw [ofLine_otherwise ho] at h
    cases opened with
    | nil => cases h
    | cons m opened =>
      cases h
      exact .otherwise ho
  -- a line without these keywords has the shape of its statement
  obtain ⟨hblank, hclose, hotherwise⟩ := ofLine_ne hs hc ho
  have hshape := Statement.ofLine_shape l
  generalize Statement.ofLine l = st at hshape h hblank hclose hotherwise
  cases hshape with
  | blank => exact absurd rfl hblank
  | close => exact absurd rfl hclose
  | otherwise => exact absurd rfl hotherwise
  | declare hd =>
    obtain ⟨rfl, hdef⟩ := of_statement_declare h
    exact .quiet (block_of_isPlain (.inr (hd ▸ hdef)))
  | emptyBranch =>
    obtain ⟨-, k, hrow⟩ := of_statement_branch h
    cases hrow
  | @branch d hd =>
    obtain ⟨rfl, k, hrow⟩ := of_statement_branch h
    exact .branch ⟨d, k, hd, hrow⟩
  | assign hord | bare hord =>
    cases h
    exact .quiet (block_of_isPlain (.inl hord))

end Lines

section Stack

/-- Lines in which the blocks opened on some lines, innermost first, are still open. -/
inductive Open : List (List Char) → List Nat → Prop where

  | none {ls : List (List Char)} : Block (content ls) → Open ls []

  | inside {before after : List (List Char)} {l : List Char} {opened : List Nat} :
      Open before opened → IsBranch (trim l) → Branches (content after) →
      Open (before ++ l :: after) ((before.length + 1) :: opened)

variable {ls ms : List (List Char)} {l : List Char} {opened opened' : List Nat}

theorem content_branch (h : IsBranch (trim l)) (ls : List (List Char)) :
    content (l :: ls) = trim l :: content ls := by
  rw [content_cons, not_skipped_of_isBranch h]
  rfl

theorem Open.append (h : Open ls opened) (hm : Block (content ms)) : Open (ls ++ ms) opened := by
  cases h with
  | none hb =>
    refine .none ?_
    rw [content_append]
    exact hb.append hm
  | inside ho hl ha =>
    rw [List.append_assoc, List.cons_append]
    refine .inside ho hl ?_
    rw [content_append]
    exact ha.append hm

theorem Open.next (h : Open ls opened) (hl : Admitted (ls.length + 1) l opened opened') :
    Open (ls ++ [l]) opened' := by
  cases hl with
  | quiet hb => exact h.append hb
  | branch hb => exact .inside h hb .nil
  | otherwise he =>
    cases h with
    | @inside before after l' _ ho hl' ha =>
      rw [List.append_assoc, List.cons_append]
      refine .inside ho hl' ?_
      have hc : content [l] = ["else".toList] := by
        rw [content_cons, he]
        rfl
      rw [content_append, hc]
      exact ha.otherwise
  | close hc =>
    cases h with
    | @inside before after l' _ ho hl' ha =>
      rw [List.append_assoc, List.cons_append]
      refine ho.append ?_
      have hend : content [l] = ["end".toList] := by
        rw [content_cons, hc]
        rfl
      rw [content_branch hl', content_append, hend]
      exact ha.close hl'

/-- Enough lines with `end` close all blocks. -/
theorem Open.closed (h : Open ls opened) :
    Block (content (ls ++ List.replicate opened.length "end".toList)) := by
  induction opened generalizing ls with
  | nil =>
    cases h with
    | none hb => simpa using hb
  | cons n opened ih =>
    have hn := ih (h.next (.close (by decide : trim "end".toList = "end".toList)))
    rwa [List.append_assoc, List.singleton_append, ← List.replicate_succ] at hn

/-- Lines that close all blocks when as many are open. -/
inductive Closes : Nat → List (List Char) → Prop where

  | nil : Closes 0 []

  | plain {d : Nat} {l : List Char} {ls : List (List Char)} :
      IsPlain l → Closes d ls → Closes d (l :: ls)

  | branch {d : Nat} {l : List Char} {ls : List (List Char)} :
      IsBranch l → Closes (d + 1) ls → Closes d (l :: ls)

  | otherwise {d : Nat} {ls : List (List Char)} :
      Closes (d + 1) ls → Closes (d + 1) ("else".toList :: ls)

  | close {d : Nat} {ls : List (List Char)} : Closes d ls → Closes (d + 1) ("end".toList :: ls)

theorem Block.closes {cs ds : List (List Char)} {d : Nat} (h : Block cs) (hd : Closes d ds) :
    Closes d (cs ++ ds) := by
  induction h generalizing d ds with
  | nil => exact hd
  | plain hl _ ih => exact .plain hl (ih hd)
  | @branch l first ls others hl _ _ _ ihFirst ihOthers ih =>
    have hothers : Closes (d + 1) (alternatives others ++ "end".toList :: (ls ++ ds)) := by
      clear ihFirst
      induction others with
      | nil => exact .close (ih hd)
      | cons b bs ihb =>
        have hbs := ihb (by simp_all) fun b hb => ihOthers b (by simp [hb])
        have hb := ihOthers b (by simp) hbs
        simpa [alternatives] using Closes.otherwise hb
    have hfirst := ihFirst hothers
    simpa using Closes.branch hl hfirst

theorem lines_of_closes {number : Nat} (h : Closes opened.length (content ls)) :
    Check.lines number opened ls = .ok () := by
  induction ls generalizing number opened with
  | nil =>
    cases opened with
    | nil => rfl
    | cons m opened => cases h
  | cons l ls ih =>
    by_cases hs : (trim l).isEmpty || Statement.isComment (trim l)
    · rw [content_skipped hs] at h
      rw [Check.lines, ofLine_skipped hs]
      exact ih h
    rw [content_cons, if_neg hs] at h
    generalize ht : trim l = t at h
    generalize hd : opened.length = d at h
    cases h with
    | plain hl hc =>
      rw [Check.lines, statement_plain (ht ▸ hl)]
      exact ih (hd ▸ hc)
    | branch hl hc =>
      rw [Check.lines, statement_branch (ht ▸ hl)]
      exact ih (by simpa [hd] using hc)
    | otherwise hc =>
      obtain ⟨m, opened, rfl⟩ := List.exists_cons_of_length_eq_add_one hd
      rw [Check.lines, ofLine_otherwise ht]
      exact ih (hd ▸ hc)
    | close hc =>
      obtain ⟨m, opened, rfl⟩ := List.exists_cons_of_length_eq_add_one hd
      rw [Check.lines, ofLine_close ht]
      obtain rfl : opened.length = _ := Nat.succ.inj hd
      exact ih hc

/-- The check has come to the end of some lines, with blocks opened on some of them. -/
structure Reaches (before : List (List Char)) (opened : List Nat) : Prop where
  opens : Open before opened
  goes_on : ∀ more, Check.lines 1 [] (before ++ more) = Check.lines (before.length + 1) opened more

theorem Reaches.start : Reaches [] [] := ⟨.none .nil, fun _ => rfl⟩

theorem Reaches.next (h : Reaches ls opened)
    (hl : Check.statement (ls.length + 1) opened (.ofLine l) = .ok opened') :
    Reaches (ls ++ [l]) opened' where
  opens := h.opens.next (admitted_of_statement hl)
  goes_on more := by
    rw [List.append_assoc, List.singleton_append, h.goes_on, Check.lines, hl]
    simp

/-- How the check of all lines comes to an end. -/
inductive Ends (all : List (List Char)) : Except Problem Unit → Prop where

  | accepted : Block (content all) → Ends all (.ok ())

  | stuck {before after : List (List Char)} {l : List Char} {opened : List Nat} {e : ScriptError} :
      all = before ++ l :: after → Reaches before opened →
      Check.statement (before.length + 1) opened (.ofLine l) = .error e →
      Ends all (.error ⟨before.length + 1, e⟩)

  | unclosed {n : Nat} {opened : List Nat} :
      Reaches all (n :: opened) → Ends all (.error ⟨n, .unclosedBlock⟩)

theorem Reaches.ends (h : Reaches ls opened) (after : List (List Char)) :
    Ends (ls ++ after) (Check.lines (ls.length + 1) opened after) := by
  induction after generalizing ls opened with
  | nil =>
    rw [List.append_nil]
    cases opened with
    | nil =>
      cases h.opens with
      | none hb => exact .accepted hb
    | cons n opened => exact .unclosed h
  | cons l after ih =>
    rw [Check.lines]
    cases hl : Check.statement (ls.length + 1) opened (.ofLine l) with
    | error e => exact .stuck rfl h hl
    | ok opened' => simpa using ih (h.next hl)

theorem ends (all : List (List Char)) : Ends all (Check.lines 1 [] all) := Reaches.start.ends all

theorem lines_ok_iff : Check.lines 1 [] ls = .ok () ↔ Block (content ls) := by
  constructor
  · intro h
    have he := ends ls
    rw [h] at he
    cases he with
    | accepted hb => exact hb
  · intro h
    have hc := h.closes .nil
    rw [List.append_nil] at hc
    exact lines_of_closes hc

/-- Nothing behind a line on which the check fails makes the lines a block. -/
theorem Reaches.not_block {e : ScriptError} (h : Reaches ls opened)
    (hl : Check.statement (ls.length + 1) opened (.ofLine l) = .error e)
    (more : List (List Char)) : ¬ Block (content (ls ++ l :: more)) := by
  intro hb
  have hok := lines_ok_iff.2 hb
  rw [h.goes_on, Check.lines, hl] at hok
  cases hok

end Stack

section Sources

/-- A source up to line `n`, each line with the line feed behind it. -/
def upTo (source : String) (n : Nat) : String :=
  String.ofList (((lines source.toList).take n).flatMap (· ++ ['\n']))

/-- Some text makes the lines up to line `n` a script. -/
def CanGoOn (source : String) (n : Nat) : Prop := ∃ rest, Grammatical (upTo source n ++ rest)

/-- Nothing but lines with `end` are missing. -/
def MissesEnds (source : String) : Prop :=
  ∃ k, Block (content (lines source.toList ++ List.replicate k "end".toList))

/-- Line `n` opens a block, and behind it are branches of the block and blocks that are closed. -/
def IsInnermostOpen (source : String) (n : Nat) : Prop :=
  ∃ before l after, lines source.toList = before ++ l :: after ∧ n = before.length + 1 ∧
    IsBranch (trim l) ∧ Branches (content after)

variable {cs : List Char} {ls : List (List Char)} {source : String} {n m : Nat}

theorem not_mem_of_mem_lines : ∀ l ∈ lines cs, '\n' ∉ l := by
  fun_induction lines cs with
  | case1 => simp
  | case2 cs ih => simpa using ih
  | case3 c cs hc hl ih => simp [Ne.symm hc]
  | case4 c cs hc l ls hl ih =>
    rw [hl] at ih
    simpa [Ne.symm hc] using ih

theorem lines_line {l : List Char} (h : '\n' ∉ l) (cs : List Char) :
    lines (l ++ '\n' :: cs) = l :: lines cs := by
  induction l with
  | nil => simp [lines]
  | cons c l ih =>
    obtain ⟨hc, hl⟩ : c ≠ '\n' ∧ '\n' ∉ l := by simpa [eq_comm] using h
    simp [lines, hc, ih hl]

theorem lines_flatMap (h : ∀ l ∈ ls, '\n' ∉ l) (cs : List Char) :
    lines (ls.flatMap (· ++ ['\n']) ++ cs) = ls ++ lines cs := by
  induction ls with
  | nil => rfl
  | cons l ls ih =>
    rw [List.flatMap_cons, List.append_assoc, List.append_assoc, List.singleton_append,
      lines_line (h l (by simp)), ih fun l hl => h l (by simp [hl])]
    rfl

theorem grammatical_upTo (rest : String) : Grammatical (upTo source n ++ rest) ↔
    Block (content ((lines source.toList).take n ++ lines rest.toList)) := by
  have hlines : lines (upTo source n ++ rest).toList =
      (lines source.toList).take n ++ lines rest.toList := by
    rw [String.toList_append, upTo, String.toList_ofList]
    exact lines_flatMap (fun l hl => not_mem_of_mem_lines l (List.mem_of_mem_take hl)) _
  rw [Grammatical, hlines]

theorem CanGoOn.mono (h : CanGoOn source m) (hn : n ≤ m) : CanGoOn source n := by
  obtain ⟨rest, hr⟩ := h
  refine ⟨String.ofList ((((lines source.toList).take m).drop n).flatMap (· ++ ['\n'])) ++ rest, ?_⟩
  have htake : upTo source m = upTo source n ++
      String.ofList ((((lines source.toList).take m).drop n).flatMap (· ++ ['\n'])) := by
    have hsplit := List.take_append_drop n ((lines source.toList).take m)
    rw [List.take_take, Nat.min_eq_left hn] at hsplit
    rw [upTo, upTo, ← String.ofList_append, ← List.flatMap_append, hsplit]
  rwa [← String.append_assoc, ← htake]

/-- Lines behind which the check goes on can become a script. -/
theorem Reaches.canGoOn {before after : List (List Char)} {opened : List Nat}
    (h : Reaches before opened) (hs : lines source.toList = before ++ after) :
    CanGoOn source before.length := by
  refine ⟨String.ofList ((List.replicate opened.length "end".toList).flatMap (· ++ ['\n'])), ?_⟩
  have hfeeds : ∀ l ∈ List.replicate opened.length "end".toList, '\n' ∉ l := by
    intro l hl
    obtain rfl := List.eq_of_mem_replicate hl
    decide
  have hends := lines_flatMap hfeeds []
  rw [List.append_nil] at hends
  rw [grammatical_upTo, hs, List.take_left, String.toList_ofList, hends]
  simpa [lines] using h.opens.closed

/-- A problem is reported on the line of the innermost open block if only lines with `end` are
missing, and otherwise on the first line up to which the source cannot become a script. -/
theorem check_grammar (source : String) :
    (check source = .ok () ↔ Grammatical source) ∧
      ∀ p, check source = .error p →
        (MissesEnds source → IsInnermostOpen source p.line) ∧
          (¬ MissesEnds source → IsLeast {n | ¬ CanGoOn source n} p.line) := by
  refine ⟨lines_ok_iff, fun p hp => ?_⟩
  have he := ends (lines source.toList)
  rw [check] at hp
  rw [hp] at he
  cases he with
  | @unclosed n opened hr =>
    have hmisses : MissesEnds source := ⟨_, hr.opens.closed⟩
    refine ⟨fun _ => ?_, fun hn => absurd hmisses hn⟩
    generalize hl : lines source.toList = all at hr
    cases hr.opens with
    | @inside before after l _ _ hb ha => exact ⟨before, l, after, hl, rfl, hb, ha⟩
  | @stuck before after l opened e hsplit hr hl =>
    refine ⟨fun ⟨k, hk⟩ => ?_, fun _ => ⟨fun ⟨rest, hrest⟩ => ?_, fun n hn => ?_⟩⟩
    · rw [hsplit, List.append_assoc, List.cons_append] at hk
      exact absurd hk (hr.not_block hl _)
    · have htake : (lines source.toList).take (before.length + 1) = before ++ [l] := by
        rw [hsplit, List.take_length_add_append]
        rfl
      rw [grammatical_upTo, htake, List.append_assoc, List.singleton_append] at hrest
      exact hr.not_block hl _ hrest
    · by_contra hlt
      exact hn ((hr.canGoOn hsplit).mono (Nat.le_of_lt_succ (Nat.lt_of_not_le hlt)))

/-- A block opened before a closed one, and a line that closes more than there is. -/
theorem check_grammar_nested :
    IsInnermostOpen "if 1 == 1\nif 2 == 2\nend" 1 ∧
      IsLeast {n | ¬ CanGoOn "if 1 == 1\nend\nend" n} 3 := by
  have hopen : check "if 1 == 1\nif 2 == 2\nend" = .error ⟨1, .unclosedBlock⟩ := by
    decide +kernel
  have hclosed : check "if 1 == 1\nend\nend" = .error ⟨3, .unexpectedKeyword .close⟩ := by
    decide +kernel
  have hmisses : MissesEnds "if 1 == 1\nif 2 == 2\nend" :=
    ⟨1, lines_ok_iff.1 (by decide +kernel)⟩
  have hcomplete : ¬ MissesEnds "if 1 == 1\nend\nend" := by
    intro h
    have hlines : lines "if 1 == 1\nend\nend".toList =
        ["if 1 == 1".toList, "end".toList, "end".toList] := by decide +kernel
    obtain ⟨before, l, after, hs, hn, ⟨condition, n, hl, -⟩, -⟩ :=
      ((check_grammar _).2 _ hclosed).1 h
    obtain ⟨x, y, rfl⟩ : ∃ x y, before = [x, y] := List.length_eq_two.1 (Nat.succ.inj hn).symm
    rw [hlines] at hs
    obtain rfl : "end".toList = l := (List.cons.inj (List.cons.inj (List.cons.inj hs).2).2).1
    rw [show trim "end".toList = "end".toList by decide] at hl
    simp at hl
  exact ⟨((check_grammar _).2 _ hopen).1 hmisses, ((check_grammar _).2 _ hclosed).2 hcomplete⟩

end Sources

end Grammar

end TileScript
