import SchemaDepot.Proofs.Schema.Braces

/-! # Leading comments

A comment that trails no declaration leads the first one that starts behind it, however deep that
stands, and is detached if there is none.

* `Placement.placeAll_behind`: no comment of a node starts before a node that a walk meets earlier.
* `Comment.LeadsFirst`: a comment leads the first declaration behind it of some.
* `Node.encloses`, `Schema.depthAt`: the block of a declaration, and how many blocks a point stands
  in; `Schema.encloses_iff`: a declaration stands in the blocks of those above it.
* `Node.InHeader`: a point between the start of a declaration and its block.
* `Schema.parse_leading`: the first declaration behind a comment is no deeper than the comment
  itself, unless the comment stands in a header. -/

namespace SchemaDepot

open Position

namespace Placement

variable (m : Marker)

/-! ### Comments and nodes before them -/

theorem Dressed.exists_note {m : Marker} {pool : List Note} {n : Node} (h : Dressed m pool n)
    {c : Comment} (hc : c ∈ n.comments) : ∃ x ∈ pool, c.span = x.comment.span := by
  obtain ⟨lead, trail, hsub, hcomments, -⟩ := h
  rw [hcomments] at hc
  rcases List.mem_append.1 hc with hc | hc
  · obtain ⟨x, hx, rfl⟩ := List.mem_map.1 hc
    exact ⟨x, hsub.subset (List.mem_append_left trail hx), rfl⟩
  · obtain ⟨x, hx, rfl⟩ := List.mem_map.1 hc
    exact ⟨x, hsub.subset (List.mem_append_right lead hx), rfl⟩

/-- **No comment of a node starts before a node that a walk meets earlier.** -/
theorem placeAll_behind {pool : List Note}
    (hs : pool.Pairwise fun x y => x.comment.span.start.offset < y.comment.span.start.offset)
    (ns : List Node) : (Node.walks (placeAll m pool ns).1).Pairwise fun n k =>
      ∀ c ∈ k.comments, n.span.start.offset ≤ c.span.start.offset := by
  induction ns using Node.rowInduction generalizing pool with
  | nil => exact .nil
  | cons content span cs ds children ns ihc ihn =>
    rw [placeAll_cons]
    have hdrop : (pool.dropWhile (·.startsBefore span.start)).Sublist pool :=
      List.dropWhile_sublist _
    have hinner := placeAll_sublist m (pool.dropWhile (·.startsBefore span.start)) children
    have hothers := notTrailingAt_sublist span.stop
      (placeAll m (pool.dropWhile (·.startsBefore span.start)) children).2
    have passed {x : Note} (hx : x ∈ pool.dropWhile (·.startsBefore span.start)) :
        span.start.offset ≤ x.comment.span.start.offset := by
      have := not_startsBefore_of_mem_dropWhile hs hx
      simpa [Note.startsBefore] using this
    simp only [Node.walks_cons, Node.walk_eq, List.cons_append, List.pairwise_cons,
      List.pairwise_append, List.forall_mem_append]
    refine ⟨⟨fun k hk c hc => ?_, fun k hk c hc => ?_⟩, ihc (hs.sublist hdrop),
      ihn (hs.sublist (hothers.trans (hinner.trans hdrop))), fun n hn k hk c hc => ?_⟩
    · obtain ⟨x, hx, hspan⟩ := (placeAll_dressed m _ children k hk).exists_note hc
      rw [hspan]
      exact passed hx
    · obtain ⟨x, hx, hspan⟩ := (placeAll_dressed m _ ns k hk).exists_note hc
      rw [hspan]
      exact passed (hinner.subset (hothers.subset hx))
    · -- the comment was left over behind the children
      obtain ⟨x, hx, hspan⟩ := (placeAll_dressed m _ ns k hk).exists_note hc
      have hleft := not_startsBefore_of_left m (hs.sublist hdrop) (hothers.subset hx)
      have houtline := List.mem_map_of_mem (f := outline) hn
      rw [placeAll_outline] at houtline
      obtain ⟨n', hn', he⟩ := List.mem_map.1 houtline
      have := hleft n' hn'
      rw [show n'.span = n.span from congrArg Prod.snd he] at this
      rw [hspan]
      simpa [Note.startsBefore] using this

end Placement

/-! ### The first declaration behind a comment -/

theorem Comment.placed_unplaced {c : Comment} {placement : SchemaDepot.Placement}
    (h : c.placement = placement) : c.unplaced.placed placement = c := by
  rw [← h]
  rfl

/-- The node is the first of the declarations of a tree of which `P` holds. -/
structure Node.IsFirst (P : Node → Prop) (root n : Node) : Prop where
  mem : n ∈ root.allDeclarations
  holds : P n
  le : ∀ k ∈ root.allDeclarations, P k → n.span.start.offset ≤ k.span.start.offset

/-- The comment leads the first of the declarations behind it of which `P` holds, and is detached if
there is none. -/
structure Comment.LeadsFirst (c : Comment) (root : Node) (P : Node → Prop) : Prop where
  leading : ∀ n, Node.IsFirst (fun n => c.span.stop ≤ n.span.start ∧ P n) root n →
    c.placed .leading ∈ n.comments
  detached : (∀ n ∈ root.allDeclarations, c.span.stop ≤ n.span.start → ¬ P n) →
    Node.ofComment (c.placed .detached) ∈ root.children

namespace Schema

open Token Placement

section Document
variable {text : String} {ts : List Token} {final : Position} {nodes : List Node}
  (hscan : scan text = .ok (ts, final)) (hrow : Grammar.Row (significant ts) nodes) (m : Marker)
include hscan hrow

theorem stop_le_start_iff {c : Comment} (hc : c ∈ comments ts) {n : Node}
    (hn : n ∈ Node.walks (placedIn m ts nodes).1) :
    c.span.stop ≤ n.span.start ↔ c.span.start.offset < n.span.start.offset := by
  obtain ⟨t, ht, hct⟩ := mem_comments.1 hc
  obtain ⟨-, u, hu, hstart⟩ := placedIn_start m hrow hn
  rw [(comment?_eq_some hct).2.1, hstart]
  exact (scan_inOrder hscan).stop_le_start_iff ht hu

/-- A comment that does not stand before a declaration starts behind the start of that. -/
theorem start_lt_start {c : Comment} (hc : c ∈ comments ts) {n : Node}
    (hn : n ∈ Node.walks (placedIn m ts nodes).1) (hle : ¬ c.span.stop ≤ n.span.start) :
    n.span.start.offset < c.span.start.offset := by
  have hin := scan_inOrder hscan
  obtain ⟨t, ht, hct⟩ := mem_comments.1 hc
  obtain ⟨n', hn', -, hspan⟩ := exists_of_mem_placedIn m hn
  obtain ⟨-, u, hu, hstart⟩ := hrow.node_start n' hn'
  obtain ⟨hu, significant⟩ := List.mem_filter.1 hu
  rw [(comment?_eq_some hct).2.1, ← hspan, hstart] at hle ⊢
  rcases hin.trichotomy ht hu with rfl | hr | hr
  · rw [(comment?_eq_some hct).1] at significant
    cases significant
  · exact absurd hr.le hle
  · have := (hin.filled u hu).offset_lt
    have := hr.offset_le
    omega

/-- A comment that trails nothing leads the first declaration behind it, if there is one. -/
theorem exists_leading {c : Comment} (hc : c ∈ comments ts)
    (quiet : ∀ n ∈ Node.walks (placedIn m ts nodes).1, c.placed .trailing ∉ n.comments)
    {n : Node} (hn : n ∈ Node.walks (placedIn m ts nodes).1) (hle : c.span.stop ≤ n.span.start) :
    ∃ k ∈ Node.walks (placedIn m ts nodes).1, c.placed .leading ∈ k.comments ∧
      c.span.stop ≤ k.span.start ∧ ∀ n ∈ Node.walks (placedIn m ts nodes).1,
        c.span.stop ≤ n.span.start → k.span.start.offset ≤ n.span.start.offset := by
  have hin := scan_inOrder hscan
  have order := placedIn_inOrder hscan hrow m
  have hperm := placeAll_perm m (Note.ofTokens none ts) nodes
  rw [map_unplaced_ofTokens] at hperm
  rcases List.mem_append.1 (hperm.mem_iff.2 hc) with hcarried | hleft
  · obtain ⟨d, hd, rfl⟩ := List.mem_map.1 hcarried
    obtain ⟨k, hk, hdk⟩ := List.mem_flatMap.1 hd
    rcases placedIn_sides m hin hrow hk hdk with ⟨hplacement, hlead⟩ | ⟨hplacement, -⟩
    · refine ⟨k, hk, ?_, hlead, fun n hn hle => ?_⟩
      · rwa [Comment.placed_unplaced hplacement]
      · -- `c` does not start before a node that a walk meets earlier
        by_contra hlt
        have behind := order.of_start_lt
          (placeAll_behind m (Note.ofTokens_pairwise hin none) nodes) hn hk
          (Nat.lt_of_not_le hlt) d hdk
        have := (stop_le_start_iff hscan hrow m hc hn).1 hle
        exact absurd this (Nat.not_lt.2 behind)
    · exact absurd hdk (Comment.placed_unplaced hplacement ▸ quiet k hk)
  · obtain ⟨x, hx, rfl⟩ := List.mem_map.1 hleft
    exact absurd hle (not_le_start_of_left m hin hrow hx hn)

/-- **A comment that trails nothing leads the first declaration behind it**; so it leads the first
one of which `P` holds, if `P` holds of that. -/
theorem leadsFirst {c : Comment} (hc : c ∈ comments ts)
    (quiet : ∀ n ∈ Node.walks (placedIn m ts nodes).1, c.placed .trailing ∉ n.comments)
    {P : Node → Prop} (hP : ∀ n, Node.IsFirst (c.span.stop ≤ ·.span.start)
      (document m ts final nodes) n → P n) : c.LeadsFirst (document m ts final nodes) P := by
  have declared := allDeclarations_document hrow m final
  have first {k : Node} (hk : k ∈ Node.walks (placedIn m ts nodes).1)
      (hle : c.span.stop ≤ k.span.start) (hfirst : ∀ n ∈ Node.walks (placedIn m ts nodes).1,
        c.span.stop ≤ n.span.start → k.span.start.offset ≤ n.span.start.offset) : P k :=
    hP k ⟨declared ▸ hk, hle, declared ▸ hfirst⟩
  refine ⟨fun n hn => ?_, fun hnone => ?_⟩
  · obtain ⟨hmem, ⟨hle, -⟩, hleast⟩ := hn
    rw [declared] at hmem hleast
    obtain ⟨k, hk, hleads, hkle, hfirst⟩ := exists_leading hscan hrow m hc quiet hmem hle
    have := hleast k hk ⟨hkle, first hk hkle hfirst⟩
    have := hfirst n hmem hle
    rcases (placedIn_inOrder hscan hrow m).eq_or_lt hmem hk with rfl | ⟨-, hlt⟩
    · exact hleads
    · omega
  · rw [declared] at hnone
    have alone : c.placed .detached ∈ detachedIn m ts nodes := by
      refine (mem_detachedIn_iff m (scan_inOrder hscan) hrow hc).2 fun n hn =>
        ⟨quiet n hn, fun hle => ?_⟩
      obtain ⟨k, hk, -, hkle, hfirst⟩ := exists_leading hscan hrow m hc quiet hn hle
      exact hnone k hk hkle (first hk hkle hfirst)
    rw [document_children]
    exact List.mem_append_right _ (List.mem_flatMap.2 ⟨_, alone, List.mem_cons_self⟩)

end Document

end Schema

/-! ### Blocks -/

/-- The point stands in the block of a declaration: behind a brace in it, and before its end. -/
def Node.encloses (ts : List Token) (n : Node) (p : Position) : Bool :=
  n.content.isBlock && p.offset < n.span.stop.offset && ts.any fun t =>
    Reader.isSymbol '{' t && n.span.start.offset < t.span.start.offset &&
      t.span.start.offset < p.offset

/-- The point stands in a declaration with others below it, but not in its block. -/
structure Node.InHeader (ts : List Token) (n : Node) (p : Position) : Prop where
  children_ne_nil : n.children ≠ []
  start : n.span.start.offset < p.offset
  stop : p.offset < n.span.stop.offset
  outside : n.encloses ts p = false

instance (ts : List Token) (n : Node) (p : Position) : Decidable (n.InHeader ts p) :=
  decidable_of_iff (n.children ≠ [] ∧ n.span.start.offset < p.offset ∧
      p.offset < n.span.stop.offset ∧ n.encloses ts p = false)
    ⟨fun ⟨hne, start, stop, outside⟩ => ⟨hne, start, stop, outside⟩,
      fun ⟨hne, start, stop, outside⟩ => ⟨hne, start, stop, outside⟩⟩

theorem Node.encloses_eq_true {ts : List Token} {n : Node} {p : Position} :
    n.encloses ts p = true ↔ n.content.isBlock = true ∧ p.offset < n.span.stop.offset ∧
      ∃ t ∈ ts, Reader.isSymbol '{' t = true ∧ n.span.start.offset < t.span.start.offset ∧
        t.span.start.offset < p.offset := by
  simp only [encloses, Bool.and_eq_true, decide_eq_true_eq, List.any_eq_true, and_assoc]

namespace Schema

open Token Placement

/-- How many blocks of declarations of a tree the point stands in. -/
def depthAt (ts : List Token) (root : Node) (p : Position) : Nat :=
  root.allDeclarations.countP (·.encloses ts p)

section Document
variable {text : String} {ts rest : List Token} {final : Position} {nodes : List Node}
  (hscan : scan text = .ok (ts, final))
  (hfile : Grammar.file (significant ts) = .ok (nodes, rest)) (m : Marker)
include hscan hfile

/-- **A declaration stands in the blocks of exactly those above it.** -/
theorem encloses_iff {n k : Node} (hn : n ∈ Node.walks (placedIn m ts nodes).1)
    (hk : k ∈ Node.walks (placedIn m ts nodes).1) :
    n.encloses ts k.span.start = true ↔ k ∈ Node.walks n.children := by
  have hrow := Grammar.file_row hfile
  have order := placedIn_inOrder hscan hrow m
  rw [Node.encloses_eq_true]
  constructor
  · rintro ⟨-, hstop, t, -, -, hstart, hlt⟩
    exact order.mem_below hn hk (hstart.trans hlt) hstop
  · intro hbelow
    have inside := (order.below_of_mem hn).bounds k hbelow
    obtain ⟨n', hn', hcontent, hnspan⟩ := exists_of_mem_placedIn m hn
    obtain ⟨k', hk', -, hkspan⟩ := exists_of_mem_placedIn m hk
    have hbelow' : k' ∈ Node.walks n'.children :=
      (nodes_inOrder hscan hrow).mem_below hn' hk' (by rw [hnspan, hkspan]; omega)
        (by rw [hnspan, hkspan]; omega)
    obtain ⟨used, hused, fenced⟩ := Grammar.file_fenced hfile
    have hsub : used.Sublist ts :=
      (List.sublist_append_left used rest).trans (hused ▸ List.filter_sublist)
    obtain ⟨isBlock, t, ht, opens, hstart, hlt⟩ :=
      (fenced.braced ((scan_inOrder hscan).sublist hsub) n' hn' k' hbelow').mono hsub
    rw [hcontent] at isBlock
    rw [hnspan] at hstart
    rw [hkspan] at hlt
    exact ⟨isBlock, by omega, t, ht, opens, hstart, hlt⟩

/-- Outside of headers, the first declaration behind a comment stands in no block that the comment
does not stand in. -/
theorem encloses_of_first {c : Comment} (hc : c ∈ comments ts)
    (outside : ∀ n ∈ Node.walks (placedIn m ts nodes).1, ¬ n.InHeader ts c.span.start) {k : Node}
    (hk : k ∈ Node.walks (placedIn m ts nodes).1) (hle : c.span.stop ≤ k.span.start)
    (hfirst : ∀ n ∈ Node.walks (placedIn m ts nodes).1, c.span.stop ≤ n.span.start →
      k.span.start.offset ≤ n.span.start.offset) {n : Node}
    (hn : n ∈ Node.walks (placedIn m ts nodes).1) (h : n.encloses ts k.span.start = true) :
    n.encloses ts c.span.start = true := by
  have hrow := Grammar.file_row hfile
  have hbelow := (encloses_iff hscan hfile m hn hk).1 h
  have inside := ((placedIn_inOrder hscan hrow m).below_of_mem hn).bounds k hbelow
  have hlt := (stop_le_start_iff hscan hrow m hc hk).1 hle
  -- `k` is the first behind the comment, so `n`, which starts before `k`, starts before that
  have hstart : n.span.start.offset < c.span.start.offset :=
    start_lt_start hscan hrow m hc hn fun hle => by
      have := hfirst n hn hle
      omega
  by_contra hout
  refine outside n hn ⟨fun hnone => ?_, hstart, by omega, Bool.eq_false_iff.2 hout⟩
  rw [hnone] at hbelow
  exact absurd hbelow List.not_mem_nil

/-- A comment in a header stands before all declarations in the block, but in no block that the
first of these does not stand in. -/
theorem encloses_first_child {c : Comment} (hc : c ∈ comments ts) {n : Node}
    (hn : n ∈ Node.walks (placedIn m ts nodes).1) (header : n.InHeader ts c.span.start) {k : Node}
    {others : List Node} (hchildren : n.children = k :: others) :
    c.span.stop ≤ k.span.start ∧ (∀ x ∈ Node.walks (placedIn m ts nodes).1,
      c.span.stop ≤ x.span.start → k.span.start.offset ≤ x.span.start.offset) ∧
    n.encloses ts k.span.start = true ∧ ∀ x ∈ Node.walks (placedIn m ts nodes).1,
      x.encloses ts c.span.start = true → x.encloses ts k.span.start = true := by
  have hrow := Grammar.file_row hfile
  have order := placedIn_inOrder hscan hrow m
  obtain ⟨-, hstart, hstop, outside⟩ := header
  have hbelow : k ∈ Node.walks n.children := by
    rw [hchildren, Node.walks_cons, Node.walk_eq]
    exact List.mem_cons_self
  have hk := Node.mem_walks_of_below hn hbelow
  have inside := (order.below_of_mem hn).bounds k hbelow
  -- all that stands below `n` starts with `k` or behind its start
  have least : ∀ x ∈ Node.walks n.children, k.span.start.offset ≤ x.span.start.offset := by
    have apart := (order.below_of_mem hn).apart
    rw [hchildren, Node.walks_cons, Node.walk_eq, List.cons_append] at apart ⊢
    rw [List.forall_mem_cons]
    exact ⟨le_refl _, fun x hx => ((List.pairwise_cons.1 apart).1 x hx).1.le⟩
  have fence := (encloses_iff hscan hfile m hn hk).2 hbelow
  have hlt : c.span.start.offset < k.span.start.offset := by
    obtain ⟨isBlock, -, t, ht, opens, hnt, htk⟩ := Node.encloses_eq_true.1 fence
    have : ¬ t.span.start.offset < c.span.start.offset := fun htc => by
      rw [Node.encloses_eq_true.2 ⟨isBlock, hstop, t, ht, opens, hnt, htc⟩] at outside
      cases outside
    omega
  refine ⟨(stop_le_start_iff hscan hrow m hc hk).2 hlt, fun x hx hle => ?_, fence,
    fun x hx h => ?_⟩
  · have := (stop_le_start_iff hscan hrow m hc hx).1 hle
    by_cases hxn : x.span.start.offset < n.span.stop.offset
    · exact least x (order.mem_below hn hx (by omega) hxn)
    · omega
  · obtain ⟨isBlock, hcx, t, ht, opens, hxt, htc⟩ := Node.encloses_eq_true.1 h
    refine Node.encloses_eq_true.2 ⟨isBlock, ?_, t, ht, opens, hxt, htc.trans hlt⟩
    rcases order.eq_or_lt hx hn with rfl | ⟨-, hxn | hnx⟩
    · rw [h] at outside
      cases outside
    · have := (order.below_of_mem hx).bounds n (order.mem_below hx hn hxn (by omega))
      omega
    · have := least x (order.mem_below hn hx hnx (by omega))
      omega

end Document

/-- More elements satisfy `q` than `p` if all that satisfy `p` do, and another one. -/
theorem countP_lt_countP {ns : List Node} {p q : Node → Bool}
    (h : ∀ n ∈ ns, p n = true → q n = true) {n : Node} (hn : n ∈ ns) (hp : p n = false)
    (hq : q n = true) : ns.countP p < ns.countP q := by
  obtain ⟨front, back, rfl⟩ := List.append_of_mem hn
  rw [List.forall_mem_append, List.forall_mem_cons] at h
  have hfront := List.countP_mono_left h.1
  have hback := List.countP_mono_left h.2.2
  rw [List.countP_append, List.countP_append, List.countP_cons_of_neg (by rw [hp]; decide),
    List.countP_cons_of_pos hq]
  omega

/-- **A comment that trails no declaration leads the first one behind it**, and is detached if there
is none. Outside of headers that is the first one that is no deeper than the comment. In a header of
a declaration with others below it, it is the first of those, which is deeper. -/
theorem parse_leading {m : Marker} {text : String} {root : Node} {ts : List Token}
    {final : Position} (h : parse m text = .ok root) (hscan : scan text = .ok (ts, final)) :
    ∀ c ∈ comments ts, (∀ n ∈ root.allDeclarations, c.placed .trailing ∉ n.comments) →
      c.LeadsFirst root (fun _ => True) ∧
      ((∀ n ∈ root.allDeclarations, ¬ n.InHeader ts c.span.start) → c.LeadsFirst root fun n =>
        depthAt ts root n.span.start ≤ depthAt ts root c.span.start) ∧
      ∀ n ∈ root.allDeclarations, n.InHeader ts c.span.start → ∃ k ∈ n.children,
        c.placed .leading ∈ k.comments ∧
          depthAt ts root c.span.start < depthAt ts root k.span.start := by
  obtain ⟨us, last, nodes, rest, hscan', hfile, rfl⟩ := parse_eq_ok.1 h
  rw [hscan] at hscan'
  cases hscan'
  have hrow := Grammar.file_row hfile
  have declared := allDeclarations_document hrow m final
  simp only [depthAt]
  rw [declared]
  intro c hc quiet
  have leads := leadsFirst hscan hrow m hc quiet (P := fun _ => True) fun _ _ => trivial
  refine ⟨leads, fun outside => ?_, fun n hn header => ?_⟩
  · refine leadsFirst hscan hrow m hc quiet fun k hk => ?_
    obtain ⟨hmem, hle, hfirst⟩ := hk
    rw [declared] at hmem hfirst
    exact List.countP_mono_left fun n hn =>
      encloses_of_first hscan hfile m hc outside hmem hle hfirst hn
  · obtain ⟨k, others, hchildren⟩ := List.exists_cons_of_ne_nil header.children_ne_nil
    have hk : k ∈ Node.walks n.children := by
      rw [hchildren, Node.walks_cons, Node.walk_eq]
      exact List.mem_cons_self
    obtain ⟨hle, hfirst, fence, below⟩ := encloses_first_child hscan hfile m hc hn header hchildren
    refine ⟨k, hchildren ▸ List.mem_cons_self, leads.leading k ⟨?_, ⟨hle, trivial⟩, ?_⟩,
      countP_lt_countP below hn header.outside fence⟩
    · rw [declared]
      exact Node.mem_walks_of_below hn hk
    · rw [declared]
      exact fun x hx hbehind => hfirst x hx hbehind.1

/-- A comment between the keyword and the name of a message with a field, and a second message. -/
def headerText : String := "message /* c */ A \x7b int32 x = 1; \x7d\nmessage B \x7b\x7d"

/-- The comment of `headerText`. -/
def headerComment : Comment := ⟨.block, .leading, " c ", ⟨⟨1, 9, 8⟩, ⟨1, 16, 15⟩⟩⟩

/-- The tokens of `headerText`. -/
def headerTokens : List Token :=
  [⟨.word, "message", ⟨⟨1, 1, 0⟩, ⟨1, 8, 7⟩⟩⟩,
    ⟨.blockComment, " c ", ⟨⟨1, 9, 8⟩, ⟨1, 16, 15⟩⟩⟩, ⟨.word, "A", ⟨⟨1, 17, 16⟩, ⟨1, 18, 17⟩⟩⟩,
    ⟨.symbol '{', "\x7b", ⟨⟨1, 19, 18⟩, ⟨1, 20, 19⟩⟩⟩,
    ⟨.word, "int32", ⟨⟨1, 21, 20⟩, ⟨1, 26, 25⟩⟩⟩, ⟨.word, "x", ⟨⟨1, 27, 26⟩, ⟨1, 28, 27⟩⟩⟩,
    ⟨.symbol '=', "=", ⟨⟨1, 29, 28⟩, ⟨1, 30, 29⟩⟩⟩, ⟨.integer, "1", ⟨⟨1, 31, 30⟩, ⟨1, 32, 31⟩⟩⟩,
    ⟨.symbol ';', ";", ⟨⟨1, 32, 31⟩, ⟨1, 33, 32⟩⟩⟩,
    ⟨.symbol '}', "\x7d", ⟨⟨1, 34, 33⟩, ⟨1, 35, 34⟩⟩⟩,
    ⟨.word, "message", ⟨⟨2, 1, 35⟩, ⟨2, 8, 42⟩⟩⟩, ⟨.word, "B", ⟨⟨2, 9, 43⟩, ⟨2, 10, 44⟩⟩⟩,
    ⟨.symbol '{', "\x7b", ⟨⟨2, 11, 45⟩, ⟨2, 12, 46⟩⟩⟩,
    ⟨.symbol '}', "\x7d", ⟨⟨2, 12, 46⟩, ⟨2, 13, 47⟩⟩⟩]

theorem scan_headerText : scan headerText = .ok (headerTokens, ⟨2, 13, 47⟩) := by
  decide +kernel

/-- Where the declarations of `headerText` start, their comments, and how deep they stand. -/
def headerOutline : List (Position × List Comment × Nat) :=
  [(⟨1, 1, 0⟩, [], 0), (⟨1, 21, 20⟩, [headerComment.placed .leading], 1), (⟨2, 1, 35⟩, [], 0)]

theorem exists_parse_headerText : ∃ root, parse {} headerText = .ok root ∧
    root.allDeclarations.map (fun n =>
      (n.span.start, n.comments, depthAt headerTokens root n.span.start)) = headerOutline ∧
    depthAt headerTokens root headerComment.span.start = 0 ∧
    ∃ n ∈ root.allDeclarations, n.InHeader headerTokens headerComment.span.start := by
  have found : (parse {} headerText).toOption.map (fun root =>
      (root.allDeclarations.map (fun n =>
        (n.span.start, n.comments, depthAt headerTokens root n.span.start)),
        depthAt headerTokens root headerComment.span.start,
        root.allDeclarations.any fun n =>
          decide (n.InHeader headerTokens headerComment.span.start))) =
      some (headerOutline, 0, true) := by
    decide +kernel
  obtain ⟨root, hp, he⟩ := exists_parse found
  simp only [Prod.mk.injEq, List.any_eq_true, decide_eq_true_eq] at he
  exact ⟨root, hp, he⟩

theorem headerText_quiet {root : Node} (h : root.allDeclarations.map (fun n =>
    (n.span.start, n.comments, depthAt headerTokens root n.span.start)) = headerOutline) :
    ∀ n ∈ root.allDeclarations, headerComment.placed .trailing ∉ n.comments := by
  have quiet : ∀ e ∈ headerOutline, headerComment.placed .trailing ∉ e.2.1 := by decide
  exact fun n hn => quiet _ (h ▸ List.mem_map_of_mem hn)

theorem leading_headerText : ∃ root, parse {} headerText = .ok root ∧
    scan headerText = .ok (headerTokens, ⟨2, 13, 47⟩) ∧ headerComment ∈ comments headerTokens ∧
    (∀ n ∈ root.allDeclarations, headerComment.placed .trailing ∉ n.comments) ∧
    headerComment.LeadsFirst root (fun _ => True) ∧ ∃ n ∈ root.allDeclarations,
      n.InHeader headerTokens headerComment.span.start ∧ ∃ k ∈ n.children,
        headerComment.placed .leading ∈ k.comments ∧
          depthAt headerTokens root headerComment.span.start <
            depthAt headerTokens root k.span.start := by
  obtain ⟨root, hp, houtline, -, n, hn, header⟩ := exists_parse_headerText
  have hc : headerComment ∈ comments headerTokens := by decide +kernel
  have quiet := headerText_quiet houtline
  obtain ⟨leads, -, below⟩ := parse_leading hp scan_headerText headerComment hc quiet
  exact ⟨root, hp, scan_headerText, hc, quiet, leads, n, hn, header, below n hn header⟩

/-- **Not every comment leads a declaration that is no deeper**: one in a header leads what stands
in the block. -/
theorem exists_deeper : ¬ ∀ (m : Marker) (text : String) (root : Node) (ts : List Token)
    (final : Position), parse m text = .ok root → scan text = .ok (ts, final) →
      ∀ c ∈ comments ts, (∀ n ∈ root.allDeclarations, c.placed .trailing ∉ n.comments) →
        c.LeadsFirst root fun n =>
          depthAt ts root n.span.start ≤ depthAt ts root c.span.start := by
  intro h
  obtain ⟨root, hp, houtline, hdepth, -⟩ := exists_parse_headerText
  have leads := h _ _ _ _ _ hp scan_headerText headerComment (by decide +kernel)
    (headerText_quiet houtline)
  have listed : ∀ k ∈ root.allDeclarations,
      (k.span.start, k.comments, depthAt headerTokens root k.span.start) ∈ headerOutline :=
    fun k hk => houtline ▸ List.mem_map_of_mem hk
  obtain ⟨b, hb, he⟩ : ∃ b ∈ root.allDeclarations,
      (b.span.start, b.comments, depthAt headerTokens root b.span.start) = (⟨2, 1, 35⟩, [], 0) :=
    List.mem_map.1 (houtline ▸ by simp [headerOutline])
  simp only [Prod.mk.injEq] at he
  obtain ⟨hstart, hcomments, hb0⟩ := he
  -- the second message is the first declaration behind the comment that is not deeper
  have first : Node.IsFirst (fun n => headerComment.span.stop ≤ n.span.start ∧
      depthAt headerTokens root n.span.start ≤
        depthAt headerTokens root headerComment.span.start) root b := by
    refine ⟨hb, ⟨?_, by rw [hb0]; exact Nat.zero_le _⟩, fun k hk hbehind => ?_⟩
    · rw [hstart]
      exact Position.le_iff.2 (by decide)
    · obtain ⟨hle, hflat⟩ := hbehind
      rw [hdepth] at hflat
      have hmem := listed k hk
      simp only [headerOutline, List.mem_cons, Prod.mk.injEq, List.not_mem_nil, or_false] at hmem
      rcases hmem with ⟨hk, -⟩ | ⟨-, -, hk⟩ | ⟨hk, -⟩
      · rw [hk] at hle
        exact absurd (Position.le_iff.1 hle) (by decide)
      · rw [hk] at hflat
        exact absurd hflat (by decide)
      · rw [hk, hstart]
  have leading := leads.leading b first
  rw [hcomments] at leading
  exact absurd leading List.not_mem_nil

end Schema

end SchemaDepot
