import Mathlib.Algebra.Group.Nat.Defs
import Mathlib.Data.List.Perm.Basic
import SchemaDepot.Digest.Fingerprint

/-! # Frames can be told apart

The bytes of a row of frames say which frames these are, as long as each length fits into the eight
bytes that are kept for it. The length stands before the value, so that nothing inside a value can
be taken for a frame.

* `Frame.flatMap_bytes_inj`: rows of frames with the same bytes are the same.
* `Frame.pairs_append_inj`: rows of things with two frames each are the same if their frames are,
  whatever follows them, as long as it starts with a frame of another role.
* `Options.ext_get?`: options in order are the same if they have the same values. -/

namespace SchemaDepot

/-! ### Texts as bytes -/

theorem toList_loop (bytes : ByteArray) (i : Nat) (front : List UInt8) :
    ByteArray.toList.loop bytes i front = front.reverse ++ bytes.data.toList.drop i := by
  fun_induction ByteArray.toList.loop bytes i front with
  | case1 i front hi ih =>
    have byte : bytes.get! i = bytes.data.toList[i] := getElem!_pos bytes.data i hi
    rw [ih, byte, List.reverse_cons, List.append_assoc, List.singleton_append,
      ← List.drop_eq_getElem_cons]
  | case2 i front hi =>
    rw [List.drop_eq_nil_of_le (Nat.le_of_not_lt hi), List.append_nil]

theorem textBytes_eq (s : String) : textBytes s = s.toByteArray.data.toList :=
  toList_loop s.toByteArray 0 []

theorem length_textBytes (s : String) : (textBytes s).length = s.utf8ByteSize := by
  rw [textBytes_eq, Array.length_toList]
  exact String.size_toByteArray

theorem textBytes_injective : Function.Injective textBytes := by
  intro s t h
  rw [textBytes_eq, textBytes_eq] at h
  exact String.toByteArray_inj.1 (ByteArray.ext (Array.toList_inj.1 h))

/-! ### One frame -/

theorem Role.tag_injective : Function.Injective Role.tag := by
  intro a b
  cases a <;> cases b <;> decide

namespace Frame

theorem length_littleEndian (n value : Nat) : (littleEndian n value).length = n := by
  induction n generalizing value with
  | zero => rfl
  | succ n ih => exact congrArg (· + 1) (ih _)

theorem littleEndian_inj {n a b : Nat} (ha : a < 256 ^ n) (hb : b < 256 ^ n)
    (h : littleEndian n a = littleEndian n b) : a = b := by
  induction n generalizing a b with
  | zero => omega
  | succ n ih =>
    obtain ⟨low, high⟩ := List.cons.inj h
    rw [Nat.pow_succ] at ha hb
    have low : a % 256 = b % 256 := congrArg UInt8.toNat low
    have high := ih (Nat.div_lt_of_lt_mul (by omega)) (Nat.div_lt_of_lt_mul (by omega)) high
    omega

/-- The length of the value fits into the bytes that are kept for it. -/
def Fits (f : Frame) : Prop := f.body.length < 2 ^ 64

theorem fits_ofText {role : Role} {s : String} :
    (ofText role s).Fits ↔ s.utf8ByteSize < 2 ^ 64 := by
  rw [Fits, ofText, length_textBytes]

theorem bytes_ne_nil (f : Frame) : f.bytes ≠ [] := List.cons_ne_nil _ _

/-- **A frame ends where its length says**, whatever follows it. -/
theorem bytes_append_inj {f g : Frame} {r s : List UInt8} (hf : f.Fits) (hg : g.Fits)
    (h : f.bytes ++ r = g.bytes ++ s) : f = g ∧ r = s := by
  simp only [bytes, List.cons_append, List.append_assoc, List.cons.injEq] at h
  obtain ⟨tag, h⟩ := h
  obtain ⟨length, h⟩ := List.append_inj h (by rw [length_littleEndian, length_littleEndian])
  have length : f.body.length = g.body.length := littleEndian_inj hf hg length
  obtain ⟨body, rest⟩ := List.append_inj h length
  obtain ⟨role, _⟩ := f
  obtain ⟨role', _⟩ := g
  obtain rfl : role = role' := Role.tag_injective tag
  exact ⟨congrArg (Frame.mk role) body, rest⟩

/-! ### Rows of frames -/

/-- **Rows of frames with the same bytes are the same.** -/
theorem flatMap_bytes_inj {fs gs : List Frame} (hf : ∀ f ∈ fs, f.Fits) (hg : ∀ g ∈ gs, g.Fits)
    (h : fs.flatMap bytes = gs.flatMap bytes) : fs = gs := by
  induction fs generalizing gs with
  | nil =>
    cases gs with
    | nil => rfl
    | cons g gs => exact absurd (List.append_eq_nil_iff.1 h.symm).1 g.bytes_ne_nil
  | cons f fs ih =>
    cases gs with
    | nil => exact absurd (List.append_eq_nil_iff.1 h).1 f.bytes_ne_nil
    | cons g gs =>
      rw [List.forall_mem_cons] at hf hg
      obtain ⟨rfl, rest⟩ := bytes_append_inj hf.1 hg.1 h
      rw [ih hf.2 hg.2 rest]

/-- No frame of a role comes first. -/
def StartsWithout (role : Role) (fs : List Frame) : Prop := ∀ f ∈ fs.head?, f.role ≠ role

/-- **Things with two frames each** are told apart by their frames, up to the first frame that
starts none of them. -/
theorem pairs_append_inj {α : Type} (first second : α → Frame) {role : Role}
    (hrole : ∀ a, (first a).role = role)
    (inj : ∀ a b, first a = first b → second a = second b → a = b) {as bs : List α}
    {r s : List Frame} (hr : StartsWithout role r) (hs : StartsWithout role s)
    (h : (as.flatMap fun a => [first a, second a]) ++ r =
      (bs.flatMap fun b => [first b, second b]) ++ s) : as = bs ∧ r = s := by
  induction as generalizing bs with
  | nil =>
    cases bs with
    | nil => exact ⟨rfl, h⟩
    | cons b bs =>
      obtain rfl : r = first b :: _ := h
      exact absurd (hrole b) (hr _ rfl)
  | cons a as ih =>
    cases bs with
    | nil =>
      obtain rfl : s = first a :: _ := h.symm
      exact absurd (hrole a) (hs _ rfl)
    | cons b bs =>
      simp only [List.flatMap_cons, List.cons_append, List.nil_append, List.cons.injEq] at h
      obtain ⟨one, two, rest⟩ := h
      obtain ⟨same, rest⟩ := ih rest
      exact ⟨by rw [inj a b one two, same], rest⟩

theorem ofText_inj {role : Role} {s t : String} (h : ofText role s = ofText role t) : s = t :=
  textBytes_injective (congrArg body h)

theorem ofFiles_append_inj {as bs : List TextFile} {r s : List Frame}
    (hr : StartsWithout .path r) (hs : StartsWithout .path s)
    (h : ofFiles as ++ r = ofFiles bs ++ s) : as = bs ∧ r = s := by
  refine pairs_append_inj (fun file : TextFile => ofText .path file.path)
    (fun file => ofText .content file.content) (fun _ => rfl) ?_ hr hs h
  rintro ⟨path, content⟩ ⟨path', content'⟩ one two
  obtain rfl : path = path' := ofText_inj one
  obtain rfl : content = content' := ofText_inj two
  rfl

theorem ofOptions_append_inj {as bs : Options} {r s : List Frame}
    (hr : StartsWithout .key r) (hs : StartsWithout .key s)
    (h : ofOptions as ++ r = ofOptions bs ++ s) : as = bs ∧ r = s := by
  refine pairs_append_inj (fun option : String × String => ofText .key option.1)
    (fun option => ofText .value option.2) (fun _ => rfl) ?_ hr hs h
  rintro ⟨key, value⟩ ⟨key', value'⟩ one two
  obtain rfl : key = key' := ofText_inj one
  obtain rfl : value = value' := ofText_inj two
  rfl

end Frame

/-! ### Options in order -/

namespace Options

/-- The names are distinct and increase. -/
def IsOrdered (options : Options) : Prop := options.Pairwise fun a b => a.1 < b.1

theorem mem_insert {key value : String} {options : Options} {x : String × String}
    (h : x ∈ options.insert key value) : x = (key, value) ∨ x ∈ options := by
  fun_induction insert key value options with
  | case1 => exact Or.inl (List.mem_singleton.1 h)
  | case2 => exact List.mem_cons.1 h
  | case3 =>
    rcases List.mem_cons.1 h with rfl | h
    · exact Or.inl rfl
    · exact Or.inr (List.mem_cons_of_mem _ h)
  | case4 k v rest _ _ ih =>
    rcases List.mem_cons.1 h with rfl | h
    · exact Or.inr List.mem_cons_self
    · exact (ih h).imp_right (List.mem_cons_of_mem _)

theorem isOrdered_insert {key value : String} {options : Options} (h : options.IsOrdered) :
    (options.insert key value).IsOrdered := by
  fun_induction insert key value options with
  | case1 => exact List.pairwise_singleton _ _
  | case2 k v rest less =>
    refine List.pairwise_cons.2 ⟨?_, h⟩
    intro x hx
    rcases List.mem_cons.1 hx with rfl | hx
    · exact less
    · exact String.lt_trans less (List.rel_of_pairwise_cons h hx)
  | case3 v rest => exact List.pairwise_cons.2 ⟨(List.pairwise_cons.1 h).1, h.of_cons⟩
  | case4 k v rest notLess ne ih =>
    refine List.pairwise_cons.2 ⟨?_, ih h.of_cons⟩
    intro x hx
    rcases mem_insert hx with rfl | hx
    · exact Std.lt_of_le_of_ne notLess (Ne.symm ne)
    · exact List.rel_of_pairwise_cons h hx

/-- Options made of pairs are in order. -/
theorem isOrdered_ofList (pairs : List (String × String)) : (ofList pairs).IsOrdered := by
  refine List.foldlRecOn pairs _ (motive := IsOrdered) List.Pairwise.nil ?_
  intro options h x _
  exact isOrdered_insert h

theorem get?_eq_some_iff {options : Options} (h : options.IsOrdered) {key value : String} :
    options.get? key = some value ↔ (key, value) ∈ options := by
  induction options with
  | nil => simp [get?]
  | cons x rest ih =>
    obtain ⟨k, v⟩ := x
    have later : ∀ y ∈ rest, k < y.1 := fun y hy => List.rel_of_pairwise_cons h hy
    by_cases hk : k = key
    · subst hk
      have absent : (k, value) ∉ rest := fun hmem => String.lt_irrefl k (later _ hmem)
      simp [get?, absent, eq_comm]
    · have := ih h.of_cons
      simp only [get?, List.find?_cons, beq_eq_false_iff_ne.2 hk] at this ⊢
      rw [this, List.mem_cons]
      exact ⟨Or.inr, fun hmem => hmem.resolve_left fun e => hk (Prod.mk.inj e).1.symm⟩

/-- **Options in order are the same if they have the same values.** -/
theorem ext_get? {o o' : Options} (h : o.IsOrdered) (h' : o'.IsOrdered)
    (same : ∀ key, o.get? key = o'.get? key) : o = o' := by
  have nodup : ∀ {o : Options}, o.IsOrdered → o.Nodup := by
    intro o h
    refine List.Pairwise.imp ?_ h
    rintro a _ less rfl
    exact String.lt_irrefl _ less
  have perm : o.Perm o' := by
    refine (List.perm_ext_iff_of_nodup (nodup h) (nodup h')).2 ?_
    rintro ⟨key, value⟩
    rw [← get?_eq_some_iff h, ← get?_eq_some_iff h', same]
  exact perm.eq_of_pairwise (fun a b _ _ less more => absurd more (String.lt_asymm less)) h h'

end Options

end SchemaDepot
