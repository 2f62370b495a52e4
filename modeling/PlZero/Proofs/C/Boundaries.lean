import PlZero.Proofs.C.WellQuoted
import PlZero.Proofs.Trailer

/-!
# Boundaries between fragments

The fragments of a program are written one behind the other, without anything in between. In the
output of an accepted program no token of C reaches from one of them into the next, and no comment
either (`Joined.breaks_codeOf`), so that each fragment has the tokens that it has by itself.

This is said of the tokens that the scanner finds, so nothing of what the scanner leaves out may
occur (`C.Covered`): no mark has a character from which digraphs and the ellipsis are made, no two
question marks stand side by side, and no line ends with a backslash. The output is made of
printable characters, tabs and line feeds (`C.Portable`), since all other bytes of a text are
written as digits.
-/

namespace PlZero

namespace C

/-! ### Portable texts -/

/-- A printable character, a tab or a line feed. -/
def Plain (c : Char) : Prop := (' ' ≤ c ∧ c ≤ '~') ∨ c = '\t' ∨ c = '\n'

/-- The characters do not begin a trigraph, and they do not join two lines. -/
def Apart (c d : Char) : Prop := ¬ (c = '?' ∧ d = '?') ∧ ¬ (c = '\\' ∧ d = '\n')

instance (c : Char) : Decidable (Plain c) := inferInstanceAs (Decidable (_ ∨ _))

instance (c d : Char) : Decidable (Apart c d) := inferInstanceAs (Decidable (_ ∧ _))

/-- The characters are plain, and whatever follows them, each stands apart from the next one. -/
structure Portable (cs : List Char) : Prop where
  plain : ∀ c ∈ cs, Plain c
  apart : cs.IsChain Apart
  last : ∀ c ∈ cs.getLast?, c ≠ '?' ∧ c ≠ '\\'

-- The lists are run through, since a quantifier over characters might be decided by trying them
-- all.
instance (cs : List Char) : Decidable (Portable cs) :=
  decidable_of_iff
    (cs.all (fun c => Plain c) ∧ cs.IsChain Apart ∧
      cs.getLast?.all (fun c => c ≠ '?' ∧ c ≠ '\\'))
    ⟨fun ⟨plain, apart, last⟩ =>
        ⟨by simpa using plain, apart, by simpa [Option.all_eq_true] using last⟩,
      fun h => ⟨by simpa using h.plain, h.apart, by simpa [Option.all_eq_true] using h.last⟩⟩

theorem apart_of_ne {c : Char} (h : c ≠ '?' ∧ c ≠ '\\') (d : Char) : Apart c d :=
  ⟨fun heq => h.1 heq.1, fun heq => h.2 heq.1⟩

theorem plain_of_isWordPart {c : Char} (h : isWordPart c) : Plain c := by
  have hwithin (low high : Char) (hlow : ' ' ≤ low) (hhigh : high ≤ '~')
      (h : low.val ≤ c.val ∧ c.val ≤ high.val) : Plain c :=
    .inl ⟨UInt32.le_trans hlow h.1, UInt32.le_trans h.2 hhigh⟩
  have hdef : isWordPart c = (decide ('A'.val ≤ c.val ∧ c.val ≤ 'Z'.val) ||
    (decide ('a'.val ≤ c.val) && decide (c.val ≤ 'z'.val)) ||
    (decide ('0'.val ≤ c.val) && decide (c.val ≤ '9'.val)) || decide (c = '_')) := rfl
  simp only [hdef, Bool.or_eq_true, Bool.and_eq_true, decide_eq_true_eq] at h
  rcases h with ((h | h) | h) | rfl
  · exact hwithin 'A' 'Z' (by decide) (by decide) h
  · exact hwithin 'a' 'z' (by decide) (by decide) h
  · exact hwithin '0' '9' (by decide) (by decide) h
  · decide

theorem printable_ofUInt8 {b : UInt8} (h : 32 ≤ b ∧ b ≤ 126) :
    ' ' ≤ Char.ofUInt8 b ∧ Char.ofUInt8 b ≤ '~' := by
  have hvalue : (Char.ofUInt8 b).val.toNat = b.toNat := UInt8.toNat_toUInt32 b
  rw [Char.le_def, Char.le_def, UInt32.le_iff_toNat_le, UInt32.le_iff_toNat_le, hvalue]
  exact ⟨UInt8.le_iff_toNat_le.mp h.1, UInt8.le_iff_toNat_le.mp h.2⟩

namespace Portable

variable {cs ds : List Char}

theorem append (h : Portable cs) (h' : Portable ds) : Portable (cs ++ ds) where
  plain := List.forall_mem_append.mpr ⟨h.plain, h'.plain⟩
  apart := List.isChain_append.mpr ⟨h.apart, h'.apart, fun c hc d _ => apart_of_ne (h.last c hc) d⟩
  last c hc := by
    rw [List.getLast?_append] at hc
    cases hlast : ds.getLast? with
    | none => exact h.last c (by simpa [hlast] using hc)
    | some d => exact h'.last c (by simpa [hlast] using hc)

/-- Characters of which none could begin a trigraph or join two lines. -/
theorem of_forall (h : ∀ c ∈ cs, Plain c ∧ c ≠ '?' ∧ c ≠ '\\') : Portable cs where
  plain c hc := (h c hc).1
  apart := List.isChain_iff_forall_rel_of_append_cons_cons.mpr fun {c d before after} hsplit =>
    apart_of_ne (h c (by simp [hsplit])).2 d
  last c hc := (h c (List.mem_of_mem_getLast? hc)).2

theorem of_isWordPart (h : ∀ c ∈ cs, isWordPart c) : Portable cs := by
  refine of_forall fun c hc => ⟨plain_of_isWordPart (h c hc), ?_, ?_⟩ <;> rintro rfl <;>
    exact absurd (h _ hc) (by decide)

theorem of_decimal (n : Int) : Portable (Text.decimal n).toList := by
  refine of_forall fun c hc => ?_
  rcases isDigit_or_eq_of_mem_decimal hc with hdigit | rfl
  · have hpart : isWordPart c := by simp [isWordPart, Char.isAlphanum, hdigit]
    refine ⟨plain_of_isWordPart hpart, ?_, ?_⟩ <;> rintro rfl <;> exact absurd hpart (by decide)
  · decide

/-- Between its quotes, a string literal is printable, and its question marks stand apart. -/
theorem of_cString (text : String) : Portable (Text.cString text).toList := by
  have hquoted := wellQuoted_cString text
  have hprintable : ∀ c ∈ (Text.cString text).toList, ' ' ≤ c ∧ c ≤ '~' := by
    intro c hc
    rw [toList_cString, List.mem_cons, List.mem_append, List.mem_flatMap] at hc
    rcases hc with rfl | ⟨b, -, hc⟩ | hc
    · decide
    · obtain ⟨e, he, rfl⟩ := printable_of_mem (Text.escapedAs_escapeByte b) c hc
      exact printable_ofUInt8 he
    · rw [List.mem_singleton.mp hc]
      decide
  refine ⟨fun c hc => .inl (hprintable c hc), ?_, ?_⟩
  · refine List.isChain_iff_forall_rel_of_append_cons_cons.mpr fun {c d before after} hsplit => ?_
    refine ⟨?_, ?_⟩
    · rintro ⟨rfl, rfl⟩
      exact hquoted.no_trigraph ⟨before, after, by simp [hsplit]⟩
    · rintro ⟨-, rfl⟩
      exact absurd (hprintable '\n' (by simp [hsplit])) (by decide)
  · rw [toList_cString, ← List.cons_append, List.getLast?_concat]
    simp

end Portable

end C

/-! ### Portable fragments -/

open C (Breaks Portable)

/-- The text of a fragment that is put together from portable parts is portable. -/
theorem portable_append {u v : String} (hu : Portable u.toList) (hv : Portable v.toList) :
    Portable (u ++ v).toList := by
  rw [String.toList_append]
  exact hu.append hv

/-- A text that is written out is looked at character by character. -/
theorem portable_ofList {cs : List Char} (h : Portable cs) :
    Portable (String.ofList cs).toList := by
  rwa [String.toList_ofList]

theorem IsWord.portable {x : String} (h : IsWord x) : Portable x.toList :=
  .of_isWordPart h.forall_isWordPart

theorem Operand.WellFormed.portable {o : Operand} (h : o.WellFormed) : Portable o.text.toList := by
  cases o with
  | name x => exact IsWord.portable h
  | number n => exact .of_decimal n

/-- **The text of a fragment is portable.** -/
theorem Fragment.WellFormed.portable {f : Fragment} (h : f.WellFormed) :
    Portable f.text.toList := by
  cases f with
  | preamble =>
    iterate 25 refine portable_append ?_ (portable_ofList (by decide))
    exact portable_ofList (by decide)
  | trailer =>
    refine portable_append (portable_append ?_ ?_) ?_ <;> exact portable_ofList (by decide)
  | constantHead x | procedureHead x =>
    exact portable_append (portable_append (portable_ofList (by decide)) (IsWord.portable h))
      (portable_ofList (by decide))
  | variableHead x => exact portable_append (portable_ofList (by decide)) (IsWord.portable h)
  | constantValue n => exact portable_append (.of_decimal n) (portable_ofList (by decide))
  | arrayBound n =>
    exact portable_append (portable_append (portable_ofList (by decide)) (.of_decimal n))
      (portable_ofList (by decide))
  | name x => exact IsWord.portable h
  | number n => exact .of_decimal n
  | call x => exact portable_append (IsWord.portable h) (portable_ofList (by decide))
  | mark m => cases m <;> exact portable_ofList (by decide)
  | bodyEnd b => cases b <;> exact portable_ofList (by decide)
  | print form o =>
    have ho : o.WellFormed := h
    cases form <;>
      exact portable_append (portable_append (portable_ofList (by decide)) ho.portable)
        (portable_ofList (by decide))
  | read form x =>
    cases form with
    | decimal =>
      refine portable_append (portable_append ?_ (IsWord.portable h)) (portable_ofList (by decide))
      exact portable_append (portable_append (portable_ofList (by decide +kernel))
        (portable_ofList (by decide +kernel))) (portable_ofList (by decide))
    | character => exact portable_append (IsWord.portable h) (portable_ofList (by decide))
  | printArray x n =>
    have hx : Portable x.toList := IsWord.portable h
    refine portable_append (portable_append ?_ hx) (portable_ofList (by decide))
    refine portable_append (portable_append ?_ (portable_ofList (by decide)))
      (portable_ofList (by decide))
    refine portable_append (portable_append ?_ (portable_ofList (by decide))) hx
    refine portable_append (portable_append ?_ ?_) (.of_decimal n) <;>
      exact portable_ofList (by decide)
  | printText content =>
    exact portable_append (portable_append (portable_ofList (by decide)) (.of_cString content))
      (portable_ofList (by decide))
  | _ => exact portable_ofList (by decide)

theorem portable_codeOf {fs : List Fragment} (h : ∀ f ∈ fs, f.WellFormed) :
    Portable (codeOf fs).toList := by
  induction fs with
  | nil => exact portable_ofList (by decide : Portable [])
  | cons f fs ih =>
    obtain ⟨hf, hfs⟩ := List.forall_mem_cons.mp h
    rw [codeOf_cons]
    exact portable_append hf.portable (ih hfs)

/-! ### Bytes -/

theorem utf8EncodeChar_of_le {c : Char} (h : c ≤ '~') :
    ∃ b : UInt8, String.utf8EncodeChar c = [b] ∧ b.toNat = c.val.toNat := by
  have hle : c.val.toNat ≤ 126 := UInt32.le_iff_toNat_le.mp h
  have hsize : c.utf8Size = 1 := by
    rw [Char.utf8Size_eq_one_iff, UInt32.le_iff_toNat_le]
    exact hle.trans (by decide)
  refine ⟨c.val.toUInt8, String.utf8EncodeChar_eq_singleton hsize, ?_⟩
  rw [UInt32.toNat_toUInt8]
  exact Nat.mod_eq_of_lt (by omega)

/-- The bytes of portable characters are these characters. -/
theorem bytes_of_portable {text : String} (h : Portable text.toList) :
    ∀ b ∈ Text.utf8 text, (32 ≤ b ∧ b ≤ 126) ∨ b = 9 ∨ b = 10 := by
  intro b hb
  obtain ⟨c, hc, hmem⟩ := List.mem_flatMap.mp hb
  rcases h.plain c hc with ⟨hlow, hhigh⟩ | rfl | rfl
  · obtain ⟨e, hencode, hvalue⟩ := utf8EncodeChar_of_le hhigh
    obtain rfl : b = e := by simpa [hencode] using hmem
    refine .inl ⟨UInt8.le_iff_toNat_le.mpr ?_, UInt8.le_iff_toNat_le.mpr ?_⟩
    · exact hvalue ▸ UInt32.le_iff_toNat_le.mp hlow
    · exact hvalue ▸ UInt32.le_iff_toNat_le.mp hhigh
  · have htab : String.utf8EncodeChar '\t' = [9] := by decide
    exact .inr (.inl (by simpa [htab] using hmem))
  · have hfeed : String.utf8EncodeChar '\n' = [10] := by decide
    exact .inr (.inr (by simpa [hfeed] using hmem))

/-! ### What the scanner leaves out -/

namespace C

/-- The token is a mark from which digraphs or the ellipsis are made. -/
def Token.isPartial : Token → Bool
  | .mark m => m.toList.any fun c => c ∈ ['.', ':', '%']
  | _ => false

/-- Nothing that the scanner leaves out occurs in the text. -/
structure Covered (text : String) : Prop where
  no_partial : ∀ t ∈ tokens text, t.isPartial = false
  no_trigraph : ¬ ['?', '?'] <:+: text.toList
  no_splice : ¬ ['\\', '\n'] <:+: text.toList

theorem Portable.apart_of_pair {cs : List Char} {c d : Char} (h : Portable cs)
    (hpair : [c, d] <:+: cs) : Apart c d := by
  have hchain := List.IsChain.infix h.apart hpair
  simpa using hchain

end C

/-- No mark of a fragment is a part of a digraph or an ellipsis. -/
theorem Fragment.WellFormed.no_partial {f : Fragment} (h : f.WellFormed) :
    ∀ t ∈ f.tokens, t.isPartial = false := by
  have hall : f.tokens.all (fun t => !t.isPartial) = true := by
    cases f with
    | mark m => cases m <;> first | rfl | simp [Fragment.WellFormed] at h
    | bodyEnd b => cases b <;> rfl
    | print form o => cases form <;> cases o <;> rfl
    | read form x => cases form <;> rfl
    | _ => rfl
  simpa using hall

/-! ### Boundaries -/

namespace Joined

variable {e e' e'' : Ending} {fs gs : List Fragment}

/-- **No token reaches across a boundary.** The fragments behind it do not continue the last lexeme
of those in front of it. -/
theorem breaks_codeOf (h : Joined e fs e') (h' : Joined e' gs e'') :
    Breaks (codeOf fs) (codeOf gs) := by
  intro c hc
  cases h' with
  | nil => simp at hc
  | cons fits wellFormed more =>
    obtain ⟨d, ds, htext, hd⟩ := wellFormed.opens
    obtain rfl : d = c := by simpa [htext] using hc
    exact h.admits _ d fits hd

/-- In joined fragments occurs nothing that the scanner leaves out. -/
theorem covered (h : Joined e fs e') : C.Covered (codeOf fs) where
  no_partial t ht := by
    rw [h.tokens_codeOf] at ht
    obtain ⟨f, hf, hmem⟩ := List.mem_flatMap.mp ht
    exact (h.wellFormed f hf).no_partial t hmem
  no_trigraph hpair := ((portable_codeOf h.wellFormed).apart_of_pair hpair).1 ⟨rfl, rfl⟩
  no_splice hpair := ((portable_codeOf h.wellFormed).apart_of_pair hpair).2 ⟨rfl, rfl⟩

/-- Each of the joined fragments is read as it would be read alone. -/
theorem tokens_eq_flatMap (h : Joined e fs e') :
    C.tokens (codeOf fs) = fs.flatMap fun f => C.tokens f.text := by
  rw [h.tokens_codeOf]
  exact (List.flatMap_congr fun f hf => (h.wellFormed f hf).tokens_text).symm

end Joined

/-! ### The result -/

/-- The output of an accepted text is the frame around the fragments of its tree, which are
joined. -/
theorem Source.Reads.output {source : Source} {p : Tree.Program} (hp : source.Reads p.tokens)
    (h : source.Accepted) :
    (∃ e e', Joined e p.fragments e') ∧
      (compileItems source.items).state.fragments = .preamble :: (p.fragments ++ [.trailer]) ∧
      ((compile source).deliver .unlimited).bytes = (Text.utf8
        (Fragment.preamble.text ++ codeOf p.fragments ++ Fragment.trailer.text)).toArray := by
  refine ⟨?_, ?_, ?_⟩
  · obtain ⟨⟩ | ⟨-, -, hmore⟩ := hp.joined
    obtain ⟨e, hjoined, -⟩ := hmore.of_append
    exact ⟨_, e, hjoined⟩
  · obtain ⟨-, s, hs, hfragments⟩ := hp.finished h
    rw [hs]
    exact hfragments
  · rw [(deliver_unlimited _).2, hp.text_compile h, p.codeOf_fragments]

/-- All bytes of the output of a text are portable, whether it is accepted or not. -/
theorem bytes_compile (source : Source) :
    ∀ b ∈ Text.utf8 (compile source).text, (32 ≤ b ∧ b ≤ 126) ∨ b = 9 ∨ b = 10 := by
  rw [text_compile]
  exact bytes_of_portable (portable_codeOf (wellFormed_of_written source))

/-- **Fragments do not merge.** The output of an accepted text is the frame around some fragments,
one behind the other. C reads each of them as it would read it alone, its tokens are those of its
kind, and wherever the fragments are divided, no token and no comment reaches across; nothing occurs
that the scanner leaves out. The bytes of the output are printable, or tabs and line feeds. -/
theorem fragments_keep_tokens (source : Source)
    (h : ((compile source).deliver .unlimited).failure? = none) :
    let output := ((compile source).deliver .unlimited).bytes
    (∃ fs, (compileItems source.items).state.fragments = .preamble :: (fs ++ [.trailer]) ∧
      output =
        (Text.utf8 (Fragment.preamble.text ++ codeOf fs ++ Fragment.trailer.text)).toArray ∧
      C.tokens (codeOf fs) = fs.flatMap (fun f => C.tokens f.text) ∧
      (∀ f ∈ fs, C.tokens f.text = f.tokens) ∧
      (∀ before after, fs = before ++ after → Breaks (codeOf before) (codeOf after)) ∧
      C.Covered (codeOf fs)) ∧
    ∀ b ∈ output, (32 ≤ b ∧ b ≤ 126) ∨ b = 9 ∨ b = 10 := by
  intro output
  have houtput : output = (Text.utf8 (compile source).text).toArray := (deliver_unlimited _).2
  refine ⟨?_, fun b hb => bytes_compile source b (by simpa [houtput] using hb)⟩
  obtain ⟨p, hp, -⟩ := Source.Accepted.exists_tree h
  obtain ⟨⟨_, _, hjoined⟩, hfragments, hbytes⟩ := hp.output h
  refine ⟨p.fragments, hfragments, hbytes, hjoined.tokens_eq_flatMap,
    fun f hf => (hjoined.wellFormed f hf).tokens_text, ?_, hjoined.covered⟩
  intro before after hsplit
  obtain ⟨e', hbefore, hafter⟩ := (hsplit ▸ hjoined).of_append
  exact hbefore.breaks_codeOf hafter

/-- Signs behind operators, and a text that is not ASCII. -/
theorem fragments_keep_tokens_signs :
    let source : Source := ⟨"signs.pl0",
      "var x; begin x := -x - (-1); if -x < +x then writeStr 'é??/' end."⟩
    let output := ((compile source).deliver .unlimited).bytes
    ((compile source).deliver .unlimited).failure? = none ∧
    (∃ fs, (compileItems source.items).state.fragments = .preamble :: (fs ++ [.trailer]) ∧
      output =
        (Text.utf8 (Fragment.preamble.text ++ codeOf fs ++ Fragment.trailer.text)).toArray ∧
      C.tokens (codeOf fs) = fs.flatMap (fun f => C.tokens f.text) ∧
      (∀ f ∈ fs, C.tokens f.text = f.tokens) ∧
      (∀ before after, fs = before ++ after → Breaks (codeOf before) (codeOf after)) ∧
      C.Covered (codeOf fs)) ∧
    ∀ b ∈ output, (32 ≤ b ∧ b ≤ 126) ∨ b = 9 ∨ b = 10 := by
  intro source output
  have h : ((compile source).deliver .unlimited).failure? = none := by decide +kernel
  exact ⟨h, fragments_keep_tokens source h⟩

end PlZero
