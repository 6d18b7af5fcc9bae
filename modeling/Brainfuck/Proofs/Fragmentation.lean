import Brainfuck.Proofs.ScratchBuffers
import Mathlib.Data.List.Chain

/-!
# Cutting a text around a character

* `Fragmentation c t fragments` : a text is cut so that each occurrence of a character stands alone, and
  what stands between two of them is not cut further (`fragmentation_isolate`, `Fragmentation.eq_isolate`);
* `Fills convention made slot fragments parts` : what becomes of the fragments of a text with outputs, one
  part for each of them (`Fills.output`, `Fills.other`, `exists_fills`);
* `Line.storesSlot` : the lines that store into the buffer, among the lines of a block without outputs
  (`not_storesSlot_block`) and among those of a filled buffer (`Fills.filter_storesSlot`);
* `exists_translate_print` : for which texts the rule for outputs succeeds;
* `isolate_canonical` : the cut is the only one, and the outputs fill the slots of their buffer.
-/

namespace Brainfuck

open Machine Codegen

/-! ## Fragments -/

/-- A text is cut so that each occurrence of a character stands alone between the other fragments, of which
no two are neighbours. -/
structure Fragmentation (c : Char) (t : List Char) (fragments : List (List Char)) : Prop where
  whole : fragments.flatten = t
  nonempty : ∀ f ∈ fragments, f ≠ []
  alone : ∀ f ∈ fragments, f = [c] ∨ c ∉ f
  apart : fragments.IsChain fun f next => c ∈ f ∨ c ∈ next

theorem isolate_of_not_mem {c : Char} {t : List Char} (h : c ∉ t) (hne : t ≠ []) : isolate [c] t = [t] := by
  induction t with
  | nil => contradiction
  | cons d t ih =>
    rw [List.mem_cons, not_or] at h
    cases t with
    | nil => rfl
    | cons e t =>
      have he : e ≠ c := fun e' => h.2 (by simp [e'])
      rw [isolate, ih h.2 (List.cons_ne_nil e t)]
      simp [isAlone, Ne.symm h.1, he]

theorem ne_nil_of_mem_isolate {operator t : List Char} : ∀ f ∈ isolate operator t, f ≠ [] := by
  induction t with
  | nil => simp [isolate]
  | cons d t ih =>
    rw [isolate]
    cases hfragments : isolate operator t with
    | nil => simp
    | cons fragment others =>
      rw [hfragments] at ih
      dsimp only
      split
      · exact List.forall_mem_cons.2 ⟨List.cons_ne_nil _ _, ih⟩
      · exact List.forall_mem_cons.2 ⟨List.cons_ne_nil _ _, (List.forall_mem_cons.1 ih).2⟩

theorem isChain_isolate (c : Char) (t : List Char) :
    (isolate [c] t).IsChain fun f next => c ∈ f ∨ c ∈ next := by
  induction t with
  | nil => exact .nil
  | cons d t ih =>
    rw [isolate]
    cases hfragments : isolate [c] t with
    | nil => exact .singleton _
    | cons fragment others =>
      rw [hfragments] at ih
      dsimp only
      split
      · rename_i halone
        refine ih.cons_cons ?_
        simp only [isAlone, Bool.or_eq_true, beq_iff_eq, List.cons.injEq, and_true, Option.any_eq_true]
          at halone
        rcases halone with rfl | ⟨e, he, rfl⟩
        · exact .inl (List.mem_singleton_self d)
        · exact .inr (List.mem_of_mem_head? he)
      · exact ih.imp_head fun h => h.imp_left (List.mem_cons_of_mem d)

theorem fragmentation_isolate (c : Char) (t : List Char) : Fragmentation c t (isolate [c] t) where
  whole := flatten_isolate [c] t
  nonempty := ne_nil_of_mem_isolate
  alone _ := mem_isolate
  apart := isChain_isolate c t

/-- There is no other way to cut a text like this. -/
theorem Fragmentation.eq_isolate {c : Char} {t : List Char} {fragments : List (List Char)}
    (h : Fragmentation c t fragments) : fragments = isolate [c] t := by
  obtain ⟨rfl, hne, halone, hapart⟩ := h
  induction fragments with
  | nil => rfl
  | cons f fragments ih =>
    rw [List.forall_mem_cons] at hne halone
    have hrest := ih hne.2 halone.2 hapart.tail
    rw [List.flatten_cons]
    rcases halone.1 with rfl | hfree
    · rw [List.singleton_append, isolate_cons_self, ← hrest]
    cases fragments with
    | nil => rw [List.flatten_nil, List.append_nil, isolate_of_not_mem hfree hne.1]
    | cons next fragments =>
      -- the neighbour of a fragment without the character is the character
      have hmem : c ∈ next := hapart.rel.resolve_left hfree
      obtain rfl : next = [c] := (halone.2 next List.mem_cons_self).resolve_right (not_not_intro hmem)
      rw [List.flatten_cons, List.singleton_append] at hrest ⊢
      rw [isolate_append hfree, if_neg hne.1, ← isolate_cons_self, ← hrest, List.singleton_append]

theorem Fragmentation.count_eq {c : Char} {t : List Char} {fragments : List (List Char)}
    (h : Fragmentation c t fragments) : fragments.count [c] = t.count c := by
  obtain ⟨rfl, -, halone, -⟩ := h
  induction fragments with
  | nil => rfl
  | cons f fragments ih =>
    rw [List.forall_mem_cons] at halone
    rw [List.flatten_cons, List.count_append, ← ih halone.2]
    rcases halone.1 with rfl | hfree
    · rw [List.count_cons_self, List.count_singleton_self, Nat.add_comm]
    · have hne : f ≠ [c] := fun e => hfree (by simp [e])
      rw [List.count_cons_of_ne hne, List.count_eq_zero_of_not_mem hfree, Nat.zero_add]

/-! ## Buffers -/

variable {α β : Type}

/-- Code generation makes the lines of a text, from some progress on. -/
def Makes (generate : List Char → Gen (List Line)) (t : List Char) (lines : List Line) : Prop :=
  ∃ before after, (generate t).run.run before = (.ok lines, after)

/-- A buffer is filled from a slot on, with one part for each fragment: the parts of the outputs fill the
slots one after the other, and the other parts are what is `made` of their fragments. -/
structure Fills (convention : Convention) (made : List Char → List Line → Prop) (slot : Nat)
    (fragments : List (List Char)) (parts : List (List Char × List Line)) : Prop where
  cut : parts.map Prod.fst = fragments
  slots : (parts.filter (·.1 = ['.'])).map Prod.snd =
    (List.range' slot (fragments.count ['.'])).map (fillSlot convention)
  others : ∀ part ∈ parts, part.1 ≠ ['.'] → made part.1 part.2

variable {convention : Convention} {made : List Char → List Line → Prop} {slot : Nat}
  {fragments : List (List Char)} {parts : List (List Char × List Line)}

namespace Fills

theorem nil : Fills convention made slot [] [] := ⟨rfl, rfl, by simp⟩

theorem output (h : Fills convention made (slot + 1) fragments parts) :
    Fills convention made slot (['.'] :: fragments) ((['.'], fillSlot convention slot) :: parts) where
  cut := by rw [List.map_cons, h.cut]
  slots := by
    rw [List.filter_cons_of_pos (by simp), List.map_cons, h.slots, List.count_cons_self, List.range'_succ,
      List.map_cons]
  others := List.forall_mem_cons.2 ⟨absurd rfl, h.others⟩

theorem other {fragment : List Char} {lines : List Line} (hne : fragment ≠ ['.'])
    (hmade : made fragment lines) (h : Fills convention made slot fragments parts) :
    Fills convention made slot (fragment :: fragments) ((fragment, lines) :: parts) where
  cut := by rw [List.map_cons, h.cut]
  slots := by rw [List.filter_cons_of_neg (by simpa using hne), h.slots, List.count_cons_of_ne hne]
  others := List.forall_mem_cons.2 ⟨fun _ => hmade, h.others⟩

end Fills

theorem exists_fills {generate : List Char → Gen (List Line)} {before after : Progress}
    {lines : List Line}
    (h : (fillBuffer convention generate slot fragments).run.run before = (.ok lines, after)) :
    ∃ parts, lines = parts.flatMap Prod.snd ∧
      Fills convention (Makes generate) slot fragments parts := by
  induction fragments generalizing slot before lines with
  | nil =>
    cases h
    exact ⟨[], rfl, .nil⟩
  | cons fragment fragments ih =>
    rw [fillBuffer] at h
    split at h
    · rename_i halone
      obtain ⟨rest, between, hrest, hlast⟩ := exists_of_bind h
      cases hlast
      obtain ⟨parts, rfl, hfills⟩ := ih hrest
      rw [halone]
      exact ⟨_ :: parts, rfl, hfills.output⟩
    · rename_i hne
      obtain ⟨first, between, hfirst, hnext⟩ := exists_of_bind h
      obtain ⟨rest, between', hrest, hlast⟩ := exists_of_bind hnext
      cases hlast
      obtain ⟨parts, rfl, hfills⟩ := ih hrest
      exact ⟨(fragment, first) :: parts, rfl, hfills.other hne ⟨before, between, hfirst⟩⟩

theorem exists_fillBuffer (convention : Convention) {generate : List Char → Gen (List Line)}
    (h : ∀ f ∈ fragments, f ≠ ['.'] → ∀ before, ∃ lines after,
      (generate f).run.run before = (.ok lines, after)) (slot : Nat) (before : Progress) :
    ∃ lines after, (fillBuffer convention generate slot fragments).run.run before = (.ok lines, after) := by
  induction fragments generalizing slot before with
  | nil => exact ⟨[], before, rfl⟩
  | cons fragment fragments ih =>
    obtain ⟨hfirst, hothers⟩ := List.forall_mem_cons.1 h
    rw [fillBuffer]
    split
    · obtain ⟨rest, after, hrest⟩ := ih hothers (slot + 1) before
      exact ⟨_, after, run_bind_of_ok hrest _⟩
    · rename_i hne
      obtain ⟨made, between, hmade⟩ := hfirst hne before
      obtain ⟨rest, after, hrest⟩ := ih hothers slot between
      exact ⟨_, after, (run_bind_of_ok hmade _).trans (run_bind_of_ok hrest _)⟩

def flushLines (size : Nat) : List Line :=
  [op "mov" ["rsi".toList, "rsp".toList],
    op "mov" ["rdx".toList, Text.hex size],
    op "mov" ["rdi".toList, Text.hex 1],
    op "mov" ["rax".toList, Text.hex 1],
    op "syscall" [],
    op "add" ["rsp".toList, Text.hex size]]

def bufferLines (size : Nat) (filled : List Line) : List Line :=
  op "sub" ["rsp".toList, Text.hex size] :: filled ++ flushLines size

theorem translate_print_eq_ok_iff {generate : List Char → Gen (List Line)} {t : List Char}
    {before after : Progress} {lines : List Line} :
    (Rule.print.translate convention generate t).run.run before = (.ok lines, after) ↔
      ∃ filled, (fillBuffer convention generate 0 (isolate ['.'] t)).run.run before =
          (.ok filled, after) ∧ lines = bufferLines (t.count '.') filled := by
  constructor
  · intro h
    obtain ⟨filled, between, hfilled, hlast⟩ := exists_of_bind h
    cases hlast
    exact ⟨filled, hfilled, rfl⟩
  · rintro ⟨filled, hfilled, rfl⟩
    exact run_bind_of_ok hfilled _

/-! ## Lines that store into the buffer -/

/-- Whether a line stores into a cell above the stack pointer, where the slots of the buffer are. -/
def Line.storesSlot : Line → Bool
  | instruction _ (target :: _) => "[rsp+".toList.isPrefixOf target
  | _ => false

variable {pointer cache : Register}

theorem Opcode.storesSlot_line (names : convention.Names pointer cache) {o : Opcode}
    (h : ∀ slot, o ≠ .save slot) : (o.line convention).storesSlot = false := by
  have hregister : ∀ r : Register, "[rsp+".toList.isPrefixOf r.name = false := by
    intro r
    cases r <;> decide
  have hlowByte : ∀ entry ∈ Register.lowByteNames, "[rsp+".toList.isPrefixOf entry.1 = false := by decide
  cases o with
  | save slot => exact absurd rfl (h slot)
  | shift up amount =>
    show "[rsp+".toList.isPrefixOf convention.pointerRegister = false
    rw [Register.name_of_ofName? names.pointer]
    exact hregister pointer
  | load => exact hlowByte _ (Register.mem_lowByteNames names.cache)
  | set r value => exact hregister r
  | stack | change | aimStack | aimTape | call | test => rfl

theorem not_storesSlot_block (names : convention.Names pointer cache) {b : Block}
    (h : '.' ∉ b.program.text) (n : Nat) : ∀ l ∈ b.lines convention n, l.storesSlot = false := by
  have hjump : ∀ e i, (jumpTo e i).storesSlot = false := by
    intro e i
    cases e <;> rfl
  induction b generalizing n with
  | done => simp [Block.lines]
  | batch b rest ih =>
    rw [Block.program, Program.text_after, List.mem_append, not_or] at h
    rw [Block.lines]
    refine List.forall_mem_append.2 ⟨fun l hl => ?_, ih h.2 n⟩
    obtain ⟨o, ho, rfl⟩ := List.mem_map.1 hl
    refine Opcode.storesSlot_line names ?_
    rintro slot rfl
    obtain ⟨gaps, rfl⟩ := Batch.exists_print_of_save ho
    refine h.1 (show '.' ∈ (Batch.print gaps).text from ?_)
    rw [text_print]
    exact List.mem_cons_self
  | loop body rest ihb ih =>
    have htext : (Block.loop body rest).program.text =
        '[' :: (body.program.text ++ ']' :: rest.program.text) := rfl
    simp only [htext, List.mem_cons, List.mem_append, not_or] at h
    rw [Block.lines]
    split
    · exact ih h.2.2.2 n
    · refine List.forall_mem_append.2 ⟨fun l hl => ?_, ih h.2.2.2 _⟩
      simp only [loopLines_eq, List.cons_append, List.mem_cons, List.mem_append, List.not_mem_nil,
        or_false] at hl
      rcases hl with rfl | rfl | rfl | hl | rfl | rfl
      · rfl
      · exact Opcode.storesSlot_line names (by simp)
      · exact hjump _ _
      · exact ihb h.2.1 n l hl
      · exact hjump _ _
      · rfl

def saveLine (convention : Convention) (slot : Nat) : Line :=
  op "mov" [cell ("rsp+".toList ++ Text.hex slot), convention.cacheRegister]

theorem filter_storesSlot_fillSlot (names : convention.Names pointer cache) (slot : Nat) :
    (fillSlot convention slot).filter Line.storesSlot = [saveLine convention slot] := by
  have hload : (Opcode.load.line convention).storesSlot = false :=
    Opcode.storesSlot_line names (by simp)
  have hsave : ((Opcode.save slot).line convention).storesSlot = true := rfl
  show List.filter _ [Opcode.load.line convention, (Opcode.save slot).line convention] = _
  rw [List.filter_cons_of_neg (by simp [hload]), List.filter_cons_of_pos hsave]
  rfl

theorem flatMap_filter_of_nil {q : α → Bool} {f : α → List β} {xs : List α}
    (h : ∀ x ∈ xs, q x = false → f x = []) : (xs.filter q).flatMap f = xs.flatMap f := by
  induction xs with
  | nil => rfl
  | cons x xs ih =>
    obtain ⟨hx, hxs⟩ := List.forall_mem_cons.1 h
    rw [List.filter_cons, List.flatMap_cons, ← ih hxs]
    cases hq : q x with
    | true => rfl
    | false =>
      rw [hx hq]
      rfl

/-- Among the lines of a buffer that is filled from a slot on, those that store into a slot are the ones
for the outputs, if no other part has such a line. -/
theorem Fills.filter_storesSlot (names : convention.Names pointer cache)
    (h : Fills convention made slot fragments parts)
    (hmade : ∀ t ∈ fragments, t ≠ ['.'] → ∀ lines, made t lines → ∀ l ∈ lines, l.storesSlot = false) :
    (parts.flatMap Prod.snd).filter Line.storesSlot =
      (List.range' slot (fragments.count ['.'])).map (saveLine convention) := by
  have hothers : ∀ part ∈ parts, decide (part.1 = ['.']) = false →
      part.2.filter Line.storesSlot = [] := by
    intro part hpart hne
    have hne := of_decide_eq_false hne
    rw [List.filter_eq_nil_iff]
    intro l hl
    rw [hmade part.1 (h.cut ▸ List.mem_map_of_mem hpart) hne part.2 (h.others part hpart hne) l hl]
    decide
  calc (parts.flatMap Prod.snd).filter Line.storesSlot
      = (parts.filter (·.1 = ['.'])).flatMap fun part => part.2.filter Line.storesSlot := by
        rw [List.filter_flatMap, flatMap_filter_of_nil hothers]
    _ = ((parts.filter (·.1 = ['.'])).map Prod.snd).flatMap (List.filter Line.storesSlot) := by
        rw [List.flatMap_map]
    _ = (List.range' slot (fragments.count ['.'])).map (saveLine convention) := by
        rw [h.slots, List.flatMap_map]
        simp only [filter_storesSlot_fillSlot names]
        exact List.map_eq_flatMap.symm

/-! ## The cut and the buffer -/

theorem length_lt_of_fragment {operator t f : List Char} (h : f ∈ isolate operator t) :
    f.length < t.length + 1 :=
  Nat.lt_succ_of_le (sublist_of_mem_isolate h).length_le

/-- With the rules of the language, the rule for outputs translates exactly the texts of which every other
fragment is a program. -/
theorem exists_translate_print (t : List Char) (before : Progress) :
    (∃ lines after, (({ convention } : Generator).translate .print t).run.run before =
        (.ok lines, after)) ↔
      ∀ f ∈ isolate ['.'] t, f ≠ ['.'] → Sentence f := by
  constructor
  · rintro ⟨lines, after, h⟩ f hf hne
    obtain ⟨filled, hfilled, -⟩ := translate_print_eq_ok_iff.1 h
    obtain ⟨parts, -, hfills⟩ := exists_fills hfilled
    obtain ⟨part, hpart, rfl⟩ := List.mem_map.1 (hfills.cut ▸ hf)
    obtain ⟨before', after', hmade⟩ := hfills.others part hpart hne
    obtain ⟨b, hb, -⟩ := exists_block_of_fragment rfl (length_lt_of_fragment hf) hmade
    exact sentence_iff_exists_text.2 ⟨b.program, hb⟩
  · intro h
    have hmade : ∀ f ∈ isolate ['.'] t, f ≠ ['.'] → ∀ before, ∃ lines after,
        (({ convention } : Generator).fragment (t.length + 1) f).run.run before = (.ok lines, after) :=
      fun f hf hne => exists_fragment_of_sentence rfl (length_lt_of_fragment hf) (h f hf hne)
    obtain ⟨filled, after, hfilled⟩ := exists_fillBuffer convention hmade 0 before
    exact ⟨_, after, translate_print_eq_ok_iff.2 ⟨filled, hfilled, rfl⟩⟩

theorem filter_storesSlot_bufferLines (size : Nat) (filled : List Line) :
    (bufferLines size filled).filter Line.storesSlot = filled.filter Line.storesSlot := by
  have hreserve : (op "sub" ["rsp".toList, Text.hex size]).storesSlot = false := rfl
  have hflush : (flushLines size).filter Line.storesSlot = [] := rfl
  rw [bufferLines, List.cons_append, List.filter_cons_of_neg ((Bool.not_eq_true _).mpr hreserve),
    List.filter_append, hflush, List.append_nil]

theorem filter_storesSlot_print (names : convention.Names pointer cache) {t : List Char}
    {before after : Progress} {lines : List Line}
    (h : (({ convention } : Generator).translate .print t).run.run before = (.ok lines, after)) :
    lines.filter Line.storesSlot = (List.range (t.count '.')).map (saveLine convention) := by
  obtain ⟨filled, hfilled, rfl⟩ := translate_print_eq_ok_iff.1 h
  obtain ⟨parts, rfl, hfills⟩ := exists_fills hfilled
  rw [filter_storesSlot_bufferLines, hfills.filter_storesSlot names, (fragmentation_isolate _ t).count_eq,
    List.range_eq_range']
  -- a fragment without outputs makes the lines of a block without outputs
  rintro f hf hne lines ⟨before', after', hmade⟩
  obtain ⟨b, rfl, rfl⟩ := exists_block_of_fragment rfl (length_lt_of_fragment hf) hmade
  exact not_storesSlot_block names ((mem_isolate hf).resolve_left hne) _

/-- The cut of a text around a character is the only one of its kind, with as many fragments that are the
character as there are occurrences of it. So the rule for outputs, which reserves a byte for each output,
fills the slots of its buffer one after the other and each once, whatever is generated for the fragments
between the outputs; and with the rules of the language these fragments store into no slot. -/
theorem isolate_canonical (c : Char) (t : List Char) :
    (∀ fragments, Fragmentation c t fragments ↔ fragments = isolate [c] t) ∧
    (isolate [c] t).count [c] = t.count c ∧
    (∀ convention generate before lines after,
      (Rule.print.translate convention generate t).run.run before = (.ok lines, after) →
        ∃ parts : List (List Char × List Line),
          lines = bufferLines (t.count '.') (parts.flatMap Prod.snd) ∧
          parts.map Prod.fst = isolate ['.'] t ∧
          (parts.filter (·.1 = ['.'])).map Prod.snd =
            (List.range (t.count '.')).map (fillSlot convention) ∧
          ∀ part ∈ parts, part.1 ≠ ['.'] → Makes generate part.1 part.2) ∧
    ∀ (convention : Convention) (pointer cache : Register), convention.Names pointer cache → ∀ before,
      ((∃ lines after, (({ convention } : Generator).translate .print t).run.run before =
          (.ok lines, after)) ↔
        ∀ f ∈ isolate ['.'] t, f ≠ ['.'] → Sentence f) ∧
      ∀ lines after,
        (({ convention } : Generator).translate .print t).run.run before = (.ok lines, after) →
          lines.filter Line.storesSlot = (List.range (t.count '.')).map (saveLine convention) := by
  have hcount : ∀ d, (isolate [d] t).count [d] = t.count d := fun d => (fragmentation_isolate d t).count_eq
  refine ⟨fun fragments => ⟨Fragmentation.eq_isolate, ?_⟩, hcount c, ?_, ?_⟩
  · rintro rfl
    exact fragmentation_isolate c t
  · intro convention generate before lines after h
    obtain ⟨filled, hfilled, rfl⟩ := translate_print_eq_ok_iff.1 h
    obtain ⟨parts, rfl, hcut, hslots, hothers⟩ := exists_fills hfilled
    rw [hcount, ← List.range_eq_range'] at hslots
    exact ⟨parts, rfl, hcut, hslots, hothers⟩
  · intro convention pointer cache names before
    exact ⟨exists_translate_print t before, fun lines after => filter_storesSlot_print names⟩

/-- Two outputs next to each other, and a loop in front of the third: three slots, and no other cut. -/
theorem isolate_canonical_loop :
    (∀ fragments, Fragmentation '.' "..[-]>.".toList fragments →
      fragments = [".", ".", "[-]>", "."].map String.toList) ∧
    ∃ lines after, (({} : Generator).translate .print "..[-]>.".toList).run.run {} = (.ok lines, after) ∧
      lines.filter Line.storesSlot = [saveLine {} 0, saveLine {} 1, saveLine {} 2] := by
  obtain ⟨hunique, -, -, hlines⟩ := isolate_canonical '.' "..[-]>.".toList
  obtain ⟨hsuccess, hslots⟩ := hlines {} .rbx .rcx (Convention.names_default _) {}
  have hcut : isolate ['.'] "..[-]>.".toList = [".", ".", "[-]>", "."].map String.toList := by decide
  have hprograms : ∀ f ∈ isolate ['.'] "..[-]>.".toList, f = ['.'] ∨ ensureProgram f = .ok () := by
    decide
  obtain ⟨lines, after, h⟩ := hsuccess.2 fun f hf hne =>
    ensureProgram_eq_ok_iff.1 ((hprograms f hf).resolve_left hne)
  exact ⟨fun fragments hf => ((hunique fragments).1 hf).trans hcut, lines, after, h, hslots lines after h⟩

end Brainfuck
