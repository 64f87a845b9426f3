import Monkey.Proofs.HeaderLine
import Monkey.Proofs.OneLine
import Monkey.Proofs.Outline

/-!
# A dump is read back by its indentation

The line of a node says which fields hold nodes, and the fields of one kind have different names. A field
begins with its label and ends with the next line that is not further in than the label. The nodes of a
field begin with the lines at its own indentation. So a dump tells the tree as far as the lines of nodes
tell their tokens, and it does so as one text too, since none of its lines has a line break in it.
-/

namespace Monkey.Node

/-! ## Nodes by their parts -/

/-- The names of the fields that hold nodes. -/
def fieldNames : NodeKind → List String
  | .program | .block => ["statements"]
  | .letStatement => ["name", "value"]
  | .identifier | .integer | .boolean => []
  | .returnStatement => ["return_value"]
  | .expressionStatement => ["expression"]
  | .prefixOp => ["right"]
  | .infixOp => ["left", "right"]
  | .conditional => ["condition", "consequence", "alternative"]
  | .function => ["parameters", "body"]
  | .call => ["function", "arguments"]

theorem map_fst_nodeFields (node : Node) : node.nodeFields.map Prod.fst = fieldNames node.kind := by
  cases node <;> rfl

theorem nodup_fieldNames (kind : NodeKind) : (fieldNames kind).Nodup := by
  cases kind <;> decide

/-- A node is determined by its kind, its token, its plain fields and the nodes in its fields. -/
theorem eq_of_parts {a b : Node} (hkind : a.kind = b.kind) (htoken : a.token = b.token)
    (hplain : a.plainFields = b.plainFields) (hnodes : a.nodeFields = b.nodeFields) : a = b := by
  have htext := Text.quoted_injective
  have hnumber := Text.Decimal.ofInt_injective
  have htruth := truthText_injective
  cases a <;> cases b <;> cases hkind
  case conditional.conditional _ _ _ alternative _ _ _ alternative' =>
    cases alternative <;> cases alternative' <;> simp_all [token, nodeFields]
  all_goals
    simp_all [token, plainFields, nodeFields, htext.eq_iff, hnumber.eq_iff, htruth.eq_iff]

/-! ## How far a line is indented -/

/-- The number of spaces that a line starts with. -/
def margin (line : String) : Nat := (line.toList.takeWhile (· == ' ')).length

/-- A text does not start with a space. -/
def Flush (text : String) : Prop := text.toList.head? ≠ some ' '

theorem Flush.append {text : String} (h : Flush text) (hne : text ≠ "") (rest : String) :
    Flush (text ++ rest) := by
  have hchars : text.toList ≠ [] := by simpa using hne
  rwa [Flush, String.toList_append, List.head?_append_of_ne_nil _ hchars]

theorem margin_indentation_append (indent : Nat) {text : String} (h : Flush text) :
    margin (indentation indent ++ text) = 2 * indent := by
  rw [margin, indentation, String.toList_append, String.toList_ofList, Int.toNat_natCast,
    List.takeWhile_append_of_pos (by simp)]
  unfold Flush at h
  cases htext : text.toList with
  | nil => simp
  | cons c rest =>
    have hc : c ≠ ' ' := by simpa [htext] using h
    simp [hc]

/-- The line of a node starts with its title. -/
theorem flush_header (node : Node) : Flush node.header := by
  have htitle : ∀ kind : NodeKind, Flush kind.title ∧ kind.title ≠ "" := by
    intro kind
    unfold Flush
    cases kind <;> decide
  obtain ⟨hflush, hne⟩ := htitle node.kind
  rw [header, String.append_assoc]
  exact hflush.append hne _

theorem margin_header (indent : Nat) (node : Node) :
    margin (indentation indent ++ node.header) = 2 * indent :=
  margin_indentation_append indent (flush_header node)

/-- A label is indented by one step more than the line of its node. -/
theorem fieldLabel_eq (indent : Nat) (name : String) :
    fieldLabel indent name = indentation (indent + 1 : Nat) ++ (name ++ ":") := by
  have hspaces : List.replicate (2 * (indent + 1)) ' ' = List.replicate (2 * indent) ' ' ++ [' ', ' '] :=
    List.replicate_add _ _ _
  rw [← String.toList_inj]
  simp [fieldLabel, indentation, hspaces]

theorem margin_fieldLabel (indent : Nat) {kind : NodeKind} {name : String} (h : name ∈ fieldNames kind) :
    margin (fieldLabel indent name) = 2 * indent + 2 := by
  have hflush : ∀ kind, ∀ name ∈ fieldNames kind, Flush name ∧ name ≠ "" := by
    intro kind
    unfold Flush
    cases kind <;> decide
  obtain ⟨hname, hne⟩ := hflush kind name h
  rw [fieldLabel_eq, margin_indentation_append _ (hname.append hne _)]
  rfl

theorem fieldLabel_injective (indent : Nat) : Function.Injective (fieldLabel indent) := by
  intro name other h
  rw [← String.toList_inj] at h ⊢
  simpa [fieldLabel] using h

/-- The next line, if there is one, is indented by less than a width. -/
def EndsBefore (width : Nat) (lines : List String) : Prop := ∀ line ∈ lines.head?, margin line < width

theorem EndsBefore.mono {width width' : Nat} {lines : List String} (h : EndsBefore width lines)
    (hle : width ≤ width') : EndsBefore width' lines := fun line hline =>
  Nat.lt_of_lt_of_le (h line hline) hle

theorem endsBefore_cons {width : Nat} {line : String} {rest : List String} :
    EndsBefore width (line :: rest) ↔ margin line < width := by
  simp [EndsBefore]

/-- The nodes of a list begin with a line at their indentation. -/
theorem endsBefore_nodes {indent : Nat} {rest : List String} (nodes : List Node)
    (h : EndsBefore (2 * indent) rest) :
    EndsBefore (2 * indent + 2) (nodes.flatMap (dump indent) ++ rest) := by
  cases nodes with
  | nil => exact h.mono (by omega)
  | cons node nodes =>
    rw [List.flatMap_cons, dump_eq, List.cons_append, List.cons_append, endsBefore_cons, margin_header]
    omega

/-- The fields of a node begin with a label. -/
theorem endsBefore_fields {indent : Nat} {kind : NodeKind} {rest : List String}
    {fields : List (String × List Node)}
    (hnames : ∀ name ∈ fields.map Prod.fst, name ∈ fieldNames kind)
    (h : EndsBefore (2 * indent + 2) rest) :
    EndsBefore (2 * indent + 4) (fields.flatMap (fieldLines indent) ++ rest) := by
  induction fields with
  | nil => exact h.mono (by omega)
  | cons field fields ih =>
    obtain ⟨hfirst, hothers⟩ := List.forall_mem_cons.mp hnames
    obtain ⟨name, nodes⟩ := field
    cases nodes with
    | nil => exact ih hothers
    | cons node nodes =>
      rw [List.flatMap_cons, fieldLines_cons, List.cons_append, List.cons_append, endsBefore_cons,
        margin_fieldLabel indent hfirst]
      omega

/-- A label does not come later than where the fields with other names begin. -/
theorem head_fields_ne {indent : Nat} {kind : NodeKind} {name : String} {rest : List String}
    {fields : List (String × List Node)} (hname : name ∈ fieldNames kind)
    (hother : name ∉ fields.map Prod.fst) (h : EndsBefore (2 * indent + 2) rest) :
    (fields.flatMap (fieldLines indent) ++ rest).head? ≠ some (fieldLabel indent name) := by
  induction fields with
  | nil =>
    intro hhead
    have hmargin := h _ hhead
    rw [margin_fieldLabel indent hname] at hmargin
    omega
  | cons field fields ih =>
    rw [List.map_cons, List.mem_cons, not_or] at hother
    obtain ⟨first, nodes⟩ := field
    cases nodes with
    | nil => exact ih hother.2
    | cons node nodes =>
      intro hhead
      rw [List.flatMap_cons, fieldLines_cons, List.cons_append, List.cons_append, List.head?_cons,
        Option.some.injEq] at hhead
      exact hother.1 (fieldLabel_injective indent hhead).symm

/-! ## Reading a dump back -/

/-- The lines of nodes with a property tell their tokens. -/
def HeadersTellTokens (p : Node → Prop) : Prop :=
  ∀ ⦃a b : Node⦄, p a → p b → a.header = b.header → a.token = b.token

/-- The dump of a tree tells it from the other trees with a property, and where the dump ends. -/
def ReadBack (p : Node → Prop) (node : Node) : Prop :=
  ∀ (indent : Nat) (other : Node) (rest rest' : List String), other.Everywhere p →
    EndsBefore (2 * indent + 2) rest → EndsBefore (2 * indent + 2) rest' →
    node.dump indent ++ rest = other.dump indent ++ rest' → node = other ∧ rest = rest'

variable {p : Node → Prop} {indent : Nat}

/-- Nodes one after the other are read back, up to the first line that is less far in. -/
theorem nodes_append_inj {nodes others : List Node} {rest rest' : List String}
    (hnodes : ∀ node ∈ nodes, node.ReadBack p) (hothers : ∀ other ∈ others, other.Everywhere p)
    (hrest : EndsBefore (2 * indent) rest) (hrest' : EndsBefore (2 * indent) rest')
    (h : nodes.flatMap (dump indent) ++ rest = others.flatMap (dump indent) ++ rest') :
    nodes = others ∧ rest = rest' := by
  -- A node on one side only would have its line where the other side is less far in.
  have hstop : ∀ {node : Node} {nodes : List Node} {rest rest' : List String},
      EndsBefore (2 * indent) rest' → (node :: nodes).flatMap (dump indent) ++ rest ≠ rest' := by
    rintro node nodes rest _ hends rfl
    rw [List.flatMap_cons, dump_eq, List.cons_append, List.cons_append, endsBefore_cons,
      margin_header] at hends
    omega
  induction nodes generalizing others with
  | nil =>
    cases others with
    | nil => exact ⟨rfl, h⟩
    | cons other others => exact absurd h.symm (hstop hrest)
  | cons node nodes ih =>
    cases others with
    | nil => exact absurd h (hstop hrest')
    | cons other others =>
      obtain ⟨hnode, hmore⟩ := List.forall_mem_cons.mp hnodes
      obtain ⟨hother, hmore'⟩ := List.forall_mem_cons.mp hothers
      simp only [List.flatMap_cons, List.append_assoc] at h
      obtain ⟨rfl, hafter⟩ := hnode indent other _ _ hother (endsBefore_nodes nodes hrest)
        (endsBefore_nodes others hrest') h
      obtain ⟨rfl, hends⟩ := ih hmore hmore' hafter
      exact ⟨rfl, hends⟩

/-- A field is read back where no second label of its name follows. -/
theorem field_append_inj {name : String} {nodes others : List Node} {rest rest' : List String}
    (hnodes : ∀ node ∈ nodes, node.ReadBack p) (hothers : ∀ other ∈ others, other.Everywhere p)
    (hrest : EndsBefore (2 * indent + 4) rest) (hrest' : EndsBefore (2 * indent + 4) rest')
    (hlabel : rest.head? ≠ some (fieldLabel indent name))
    (hlabel' : rest'.head? ≠ some (fieldLabel indent name))
    (h : fieldLines indent (name, nodes) ++ rest = fieldLines indent (name, others) ++ rest') :
    nodes = others ∧ rest = rest' := by
  -- Without nodes a field leaves no line, and what follows does not begin with its label.
  cases nodes with
  | nil =>
    cases others with
    | nil => exact ⟨rfl, h⟩
    | cons other others => exact absurd (congrArg List.head? h) hlabel
  | cons node nodes =>
    cases others with
    | nil => exact absurd (congrArg List.head? h).symm hlabel'
    | cons other others =>
      rw [fieldLines_cons, fieldLines_cons, List.cons_append, List.cons_append] at h
      have hinside : (node :: nodes).flatMap (dump (indent + 2 : Nat)) ++ rest =
          (other :: others).flatMap (dump (indent + 2 : Nat)) ++ rest' := (List.cons.inj h).2
      exact nodes_append_inj hnodes hothers hrest hrest' hinside

/-- Fields one after the other are read back if they have the same names, each of them once. -/
theorem fields_append_inj {kind : NodeKind} {fields others : List (String × List Node)}
    {rest rest' : List String} (hsame : others.map Prod.fst = fields.map Prod.fst)
    (hknown : ∀ name ∈ fields.map Prod.fst, name ∈ fieldNames kind)
    (hnodup : (fields.map Prod.fst).Nodup)
    (hfields : ∀ field ∈ fields, ∀ node ∈ field.2, node.ReadBack p)
    (hothers : ∀ field ∈ others, ∀ node ∈ field.2, node.Everywhere p)
    (hrest : EndsBefore (2 * indent + 2) rest) (hrest' : EndsBefore (2 * indent + 2) rest')
    (h : fields.flatMap (fieldLines indent) ++ rest = others.flatMap (fieldLines indent) ++ rest') :
    fields = others ∧ rest = rest' := by
  induction fields generalizing others with
  | nil =>
    obtain rfl : others = [] := List.map_eq_nil_iff.mp hsame
    exact ⟨rfl, h⟩
  | cons field fields ih =>
    cases others with
    | nil => cases hsame
    | cons other others =>
      obtain ⟨name, nodes⟩ := field
      obtain ⟨name', nodes'⟩ := other
      simp only [List.map_cons, List.cons.injEq, List.forall_mem_cons, List.nodup_cons]
        at hsame hknown hnodup hfields hothers
      obtain ⟨rfl, hsame⟩ := hsame
      obtain ⟨hname, hknown⟩ := hknown
      obtain ⟨hnew, hnodup⟩ := hnodup
      obtain ⟨hnodes, hfields⟩ := hfields
      obtain ⟨hnodes', hothers⟩ := hothers
      have hknown' : ∀ name ∈ others.map Prod.fst, name ∈ fieldNames kind := hsame ▸ hknown
      have hnew' : name' ∉ others.map Prod.fst := hsame ▸ hnew
      simp only [List.flatMap_cons, List.append_assoc] at h
      obtain ⟨rfl, hafter⟩ := field_append_inj hnodes hnodes' (endsBefore_fields hknown hrest)
        (endsBefore_fields hknown' hrest') (head_fields_ne hname hnew hrest)
        (head_fields_ne hname hnew' hrest') h
      obtain ⟨rfl, hends⟩ := ih hsame hknown hnodup hfields hothers hafter
      exact ⟨rfl, hends⟩

/-- If the lines of nodes tell their tokens then the dump of a tree tells the tree. -/
theorem readBack_of_everywhere (htell : HeadersTellTokens p) {node : Node} (h : node.Everywhere p) :
    node.ReadBack p := by
  induction node using childInduction with
  | step node ih =>
    intro indent other rest rest' hother hrest hrest' hlines
    obtain ⟨hroot, hbelow⟩ := everywhere_iff.mp h
    obtain ⟨hroot', hbelow'⟩ := everywhere_iff.mp hother
    rw [dump_eq, dump_eq, List.cons_append, List.cons_append, List.cons.injEq] at hlines
    have hheader : node.header = other.header := by
      have hchars := congrArg String.toList hlines.1
      rw [String.toList_append, String.toList_append] at hchars
      exact String.toList_inj.mp (List.append_cancel_left hchars)
    obtain ⟨hkind, hplain, -⟩ := header_inj hheader
    -- Nodes of one kind have fields with the same names, so the fields are compared one by one.
    have hnames := map_fst_nodeFields node
    have hsame : other.nodeFields.map Prod.fst = node.nodeFields.map Prod.fst := by
      rw [hnames, map_fst_nodeFields, hkind]
    have hfields : ∀ field ∈ node.nodeFields, ∀ child ∈ field.2, child.ReadBack p := by
      intro field hfield child hchild
      have hmem := mem_children_of_mem_nodeFields hfield hchild
      exact ih child hmem (hbelow child hmem)
    have hothers : ∀ field ∈ other.nodeFields, ∀ child ∈ field.2, child.Everywhere p :=
      fun field hfield child hchild => hbelow' child (mem_children_of_mem_nodeFields hfield hchild)
    obtain ⟨hnodes, hends⟩ := fields_append_inj hsame (fun name hname => hnames ▸ hname)
      (hnames ▸ nodup_fieldNames node.kind) hfields hothers hrest hrest' hlines.2
    exact ⟨eq_of_parts hkind (htell hroot hroot' hheader) hplain hnodes, hends⟩

/-- Trees whose nodes' lines tell their tokens are the same if their dumps are. -/
theorem eq_of_dump_eq (htell : HeadersTellTokens p) {a b : Node} (ha : a.Everywhere p)
    (hb : b.Everywhere p) (h : a.dump 0 = b.dump 0) : a = b := by
  have hlines : a.dump (0 : Nat) ++ [] = b.dump (0 : Nat) ++ [] := by simpa using h
  exact (readBack_of_everywhere htell ha 0 b [] [] hb (by simp [EndsBefore]) (by simp [EndsBefore])
    hlines).1

/-! ## The lines of a dump as one text -/

/-- The line of a node has no line break. -/
theorem oneLine_header (node : Node) : OneLine node.header.toList := by
  have htitle : ∀ kind : NodeKind, OneLine kind.title.toList := by
    intro kind
    cases kind <;> decide
  have hdigits : ∀ n : Nat, OneLine (Text.Decimal.ofNat n).toList := fun n =>
    oneLine_of_not_isBlank fun c hc => isBlank_of_isDigit (Text.Decimal.isDigit_of_mem_ofNat hc)
  have hnumber : ∀ n : Int, OneLine (Text.Decimal.ofInt n).toList := by
    intro n
    cases n with
    | ofNat n => exact hdigits n
    | negSucc n => exact .append (by decide) (hdigits (n + 1))
  have htruth : ∀ value, OneLine (truthText value).toList := by decide
  have hfields : OneLine (fieldList node.plainFields).toList := by
    cases node <;> simp [fieldList, plainFields, Text.oneLine_quoted, hnumber, htruth]
    all_goals decide
  have htag : OneLine (literalTag node.tokenLiteral).toList := by
    unfold literalTag
    split_ifs
    · decide
    · exact .append (.append (by decide) (Text.oneLine_quoted _)) (by decide)
  exact .append (.append (htitle _) hfields) htag

theorem oneLine_indentation (indent : Int) : OneLine (indentation indent).toList := by
  intro c hc
  rw [indentation, String.toList_ofList] at hc
  obtain rfl := List.eq_of_mem_replicate hc
  decide

/-- The label of a field has no line break. -/
theorem oneLine_fieldLabel (indent : Int) {kind : NodeKind} {name : String}
    (h : name ∈ fieldNames kind) : OneLine (fieldLabel indent name).toList := by
  have hnames : ∀ kind, ∀ name ∈ fieldNames kind, OneLine name.toList := by
    intro kind
    cases kind <;> decide
  exact .append (.append (.append (oneLine_indentation indent) (by decide)) (hnames kind name h))
    (by decide)

/-- No line of a dump has a line break. -/
theorem oneLine_of_mem_dump {indent : Int} {node : Node} {line : String}
    (h : line ∈ node.dump indent) : OneLine line.toList := by
  induction node using childInduction generalizing indent with
  | step node ih =>
    rw [dump_eq, List.mem_cons, List.mem_flatMap] at h
    rcases h with rfl | ⟨⟨name, nodes⟩, hfield, hline⟩
    · exact .append (oneLine_indentation indent) (oneLine_header node)
    · have hname : name ∈ fieldNames node.kind := by
        rw [← map_fst_nodeFields]
        exact List.mem_map_of_mem hfield
      cases nodes with
      | nil => cases hline
      | cons first more =>
        rw [fieldLines_cons, List.mem_cons, List.mem_flatMap] at hline
        rcases hline with rfl | ⟨child, hchild, hbelow⟩
        · exact oneLine_fieldLabel indent hname
        · exact ih child (mem_children_of_mem_nodeFields hfield hchild) hbelow

/-- The lines of a dump are told by the text that they make up. -/
theorem dump_eq_of_text_eq {a b : Node} {indent : Int}
    (h : "\n".intercalate (a.dump indent) = "\n".intercalate (b.dump indent)) :
    a.dump indent = b.dump indent := by
  have hsplit : ∀ node : Node, ("\n".intercalate (node.dump indent)).toList.splitOn '\n' =
      (node.dump indent).map String.toList := by
    intro node
    rw [String.toList_intercalate]
    refine List.splitOn_intercalate '\n' ?_ (by simp [dump_eq])
    intro chars hchars hbreak
    obtain ⟨line, hline, rfl⟩ := List.mem_map.mp hchars
    exact (oneLine_of_mem_dump hline '\n' hbreak).1 rfl
  have hlines : (a.dump indent).map String.toList = (b.dump indent).map String.toList := by
    rw [← hsplit a, h, hsplit b]
  have hchars : Function.Injective String.toList := fun _ _ => String.toList_injective
  exact List.map_injective_iff.mpr hchars hlines

end Monkey.Node
