import DecimalScript.Eval.Import
import DecimalScript.Proofs.Encoding
import DecimalScript.Proofs.LeafOrder
import DecimalScript.Proofs.TokenRules
import DecimalScript.Syntax.Declarations
import DecimalScript.Syntax.Mentions

/-!
# Names in sources have no dots

A name in a source consists of letters, digits and underscores, so it never has the form of a
qualified name. Every name that a program from a source declares or defines is a token of the
source, so it has no dot either, and different names stay different when they are qualified.
-/

namespace DecimalScript

/-- A name without a dot. -/
def PlainName (name : String) : Prop := '.' ∉ name.toList

instance (name : String) : Decidable (PlainName name) :=
  inferInstanceAs (Decidable ('.' ∉ name.toList))

namespace Token

/-- The bytes of names are below 128 and no dots. -/
theorem plain_of_isNameByte {b : UInt8} (h : isNameByte b = true) :
    b.toNat < 128 ∧ Char.ofNat b.toNat ≠ '.' := by
  have hall : ∀ n : Fin 256, isNameByte (UInt8.ofFin n) = true →
      n.val < 128 ∧ Char.ofNat n.val ≠ '.' := by decide +kernel
  exact hall b.toFin h

/-- What bytes of names are read as is a plain name. -/
theorem plainName_of_bytes {bytes : List UInt8} (h : ∀ b ∈ bytes, isNameByte b = true) :
    PlainName (Text.stringLossy bytes) := by
  have hascii : ∀ b ∈ bytes, b.toNat < 128 := fun b hb => (plain_of_isNameByte (h b hb)).1
  unfold PlainName Text.stringLossy
  rw [String.toList_ofList, Text.decodeLossy_of_ascii hascii]
  intro hdot
  obtain ⟨b, hb, hchar⟩ := List.mem_map.mp hdot
  exact (plain_of_isNameByte (h b hb)).2 hchar

/-- A token that is a plain name, if it is a name at all. -/
def Plain (kind : TokenKind) : Prop := ∀ name, kind = .identifier name → PlainName name

/-- A word is reserved or a name. -/
theorem plain_nameKind {name : String} (h : PlainName name) : Plain (nameKind name) := by
  unfold nameKind
  split
  · nofun
  · rintro _ ⟨⟩
    exact h

/-- What one rule reads is plain. -/
theorem plain_of_scanHead {b : UInt8} {rest : List UInt8} {scanned : Scanned} {kind : TokenKind}
    (h : scanHead b rest = .ok scanned) (hkind : scanned.kind = some kind) : Plain kind := by
  obtain ⟨_, extra⟩ := scanned
  cases hkind
  cases rule_of_scanHead h with
  | name hstart =>
    refine plain_nameKind (plainName_of_bytes fun byte hbyte => ?_)
    rw [List.take_succ_cons] at hbyte
    rcases List.mem_cons.mp hbyte with rfl | hlater
    · simp [isNameByte, hstart]
    · rw [← List.prefix_iff_eq_take.mp (List.takeWhile_prefix _)] at hlater
      exact List.mem_takeWhile_imp hlater
  | _ =>
    intro name hname
    cases hname

/-- The tokens of a source are plain. -/
theorem plain_of_tokensFrom {read tokens : List Token} {line : Nat} {bytes : List UInt8}
    (hread : ∀ token ∈ read, Plain token.kind) (h : tokensFrom read line bytes = .ok tokens) :
    ∀ token ∈ tokens, Plain token.kind := by
  fun_induction tokensFrom read line bytes with
  | case1 read line bytes here hend =>
    cases h
    intro token htoken
    rcases List.mem_cons.mp (List.mem_reverse.mp htoken) with rfl | hearlier
    · nofun
    · exact hread token hearlier
  | case2 => cases h
  | case3 read line bytes here b rest hsplit scanned hscan slice next ih =>
    refine ih (fun token htoken => ?_) h
    cases hkind : scanned.kind with
    | none => exact hread token (by simpa [next, hkind] using htoken)
    | some kind =>
      have hcases : token = ⟨kind, lexemeOf slice, here⟩ ∨ token ∈ read := by
        simpa [next, hkind] using htoken
      rcases hcases with rfl | hearlier
      · exact plain_of_scanHead hscan hkind
      · exact hread token hearlier

/-- The tokens of a source are plain. -/
theorem plain_of_ofSource {source : List UInt8} {tokens : List Token}
    (h : ofSource source = .ok tokens) : ∀ token ∈ tokens, Plain token.kind :=
  plain_of_tokensFrom (List.forall_mem_nil _) h

end Token

/-- A leaf that is kept was read from a token. -/
theorem Leaf.exists_matching {leaves : List Leaf} {kinds : List TokenKind}
    (h : List.Forall₂ Leaf.Matches leaves kinds) {leaf : Leaf} (hleaf : leaf ∈ leaves) :
    ∃ kind ∈ kinds, leaf.Matches kind := by
  induction h with
  | nil => cases hleaf
  | @cons first kind leaves kinds hfirst _ ih =>
    rcases List.mem_cons.mp hleaf with rfl | hlater
    · exact ⟨kind, List.mem_cons_self, hfirst⟩
    · obtain ⟨found, hfound, hmatch⟩ := ih hlater
      exact ⟨found, List.mem_cons_of_mem _ hfound, hmatch⟩

namespace Block

/-- The names among the leaves of a program from a source are plain. -/
theorem plain_of_leaves {source : List UInt8} {program : Block} (h : ofSource source = .ok program)
    {name : String} (hname : .name name ∈ Stmt.leavesAll program) : PlainName name := by
  unfold ofSource at h
  split at h
  · cases h
  · rename_i tokens htokens
    split at h
    · rename_i hprogram
      cases h
      obtain ⟨rest, hspells, _⟩ := spells_of_ofTokens hprogram
      obtain ⟨consumed, rfl, _, hleaves⟩ := hspells.leaves
      rw [Piece.leaves_block] at hleaves
      obtain ⟨kind, hkind, hmatch⟩ := Leaf.exists_matching hleaves hname
      have hmapped := List.mem_of_mem_filter hkind
      obtain ⟨token, htoken, rfl⟩ := List.mem_map.mp hmapped
      exact Token.plain_of_ofSource htokens token (List.mem_append_left rest htoken) name hmatch
    · cases h
    · cases h

/-- The names that stand at the top level of a module file are plain. -/
theorem plainName_of_ofFile {files : FileTree} {path : Path} {program : Block}
    (h : ofFile files path = .ok program) {stmt : Stmt} (hstmt : stmt ∈ program) {name : String}
    (hleaf : .name name ∈ stmt.leaves) : PlainName name := by
  unfold ofFile at h
  split at h
  · cases h
  · exact plain_of_leaves h (Stmt.mem_leavesAll hstmt hleaf)

theorem plainName_of_function {files : FileTree} {path : Path} {program : Block}
    (h : ofFile files path = .ok program) {name : String} (hname : name ∈ program.functionNames) :
    PlainName name := by
  obtain ⟨stmt, hstmt, hdefined⟩ := List.mem_filterMap.mp hname
  refine plainName_of_ofFile h hstmt ?_
  cases stmt with
  | define line defined params returnType body =>
    cases hdefined
    exact List.mem_cons_self
  | _ => cases hdefined

end Block

namespace Eval

/-- Under one alias, different names are qualified differently. -/
theorem qualified_injective {aliasName name other : String}
    (h : qualified aliasName name = qualified aliasName other) : name = other := by
  have htexts := congrArg String.toList h
  simp only [qualified, String.toList_append] at htexts
  exact String.toList_inj.mp (List.append_cancel_left htexts)

/-- An alias is not one of its qualified names. -/
theorem alias_ne_qualified (aliasName name : String) : aliasName ≠ qualified aliasName name := by
  intro h
  have hlength := congrArg String.length h
  have hdot : ".".length = 1 := rfl
  rw [qualified, String.length_append, String.length_append, hdot] at hlength
  omega

/-- A plain name is no qualified name. -/
theorem ne_qualified {name : String} (h : PlainName name) (aliasName other : String) :
    name ≠ qualified aliasName other := by
  rintro rfl
  refine h ?_
  rw [qualified, String.toList_append, String.toList_append]
  exact List.mem_append_left _ (List.mem_append_right _ (by decide))

end Eval

end DecimalScript
