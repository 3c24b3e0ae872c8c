import K8sDev.Json.Value
import Mathlib.Data.List.Infix

/-!
# Values in a heap

Lists and dicts are objects that a program refers to and changes in place. `Holds h j v` says
that `v` stands for the JSON value `j` in the heap `h`; what two places refer to may be the same
object. `Tree h j v lo hi` says that it stands for `j` with objects of its own, that all lie from
`lo` to `hi`, every one after those below it: what is changed in one part of a tree, no other part
sees.

* `Tree.mono`: a tree is still there when the cells of its range are.
* `TreeMembers.focus`: the value of one member can be changed in place.
* `Tree.pop`: removing a member in place.
-/

namespace Heap

/-- What a variable, an element or a member is: a scalar, or a reference. -/
inductive Val
  | null
  | bool (b : Bool)
  | num (n : Rat)
  | str (s : String)
  | ref (addr : ℕ)
deriving DecidableEq

/-- An object. -/
inductive Cell
  | list (elems : List Val)
  | dict (members : List (String × Val))
deriving DecidableEq

end Heap

/-- The objects there are, each at its address. -/
abbrev Heap := List Heap.Cell

namespace Heap

variable {h h' h'' : Heap} {v : Val} {lo hi lo' hi' : ℕ} {key : String} {j : Json}
variable {js : List (String × Json)} {ms : List (String × Val)}

/-! ## Operations -/

/-- A new object. -/
def alloc (h : Heap) (cell : Cell) : Heap × Val := (h ++ [cell], .ref h.length)

/-- The dict at an address without the member of that name, if there is one. -/
def pop (h : Heap) (addr : ℕ) (key : String) : Heap :=
  match h[addr]? with
  | some (.dict members) => h.set addr (.dict (members.filter fun m => m.1 ≠ key))
  | _ => h

/-- Several, one after the other. -/
def pops (h : Heap) (addr : ℕ) (keys : List String) : Heap :=
  keys.foldl (fun h key => h.pop addr key) h

/-- One value after the other, each in the heap the one before has left. -/
def mapThread {ε α β : Type} (f : Heap → α → Except ε (Heap × β)) :
    Heap → List α → Except ε (Heap × List β)
  | h, [] => .ok (h, [])
  | h, x :: xs => do
    let (h, y) ← f h x
    let (h, ys) ← mapThread f h xs
    return (h, y :: ys)

/-- The same name, another value. -/
def onValue {ε : Type} (f : Heap → Val → Except ε (Heap × Val)) (h : Heap) (m : String × Val) :
    Except ε (Heap × (String × Val)) := do
  let (h, v) ← f h m.2
  return (h, (m.1, v))

/-! ## What a value stands for -/

mutual

def Holds (h : Heap) : Json → Val → Prop
  | .null, v => v = .null
  | .bool b, v => v = .bool b
  | .num n, v => v = .num n
  | .str s, v => v = .str s
  | .arr js, v => ∃ addr vs, v = .ref addr ∧ h[addr]? = some (.list vs) ∧ HoldsElems h js vs
  | .obj js, v => ∃ addr ms, v = .ref addr ∧ h[addr]? = some (.dict ms) ∧ HoldsMembers h js ms

def HoldsElems (h : Heap) : List Json → List Val → Prop
  | [], vs => vs = []
  | j :: js, vs => ∃ v rest, vs = v :: rest ∧ Holds h j v ∧ HoldsElems h js rest

def HoldsMembers (h : Heap) : List (String × Json) → List (String × Val) → Prop
  | [], ms => ms = []
  | (key, j) :: js, ms => ∃ v rest, ms = (key, v) :: rest ∧ Holds h j v ∧ HoldsMembers h js rest

end

mutual

def Tree (h : Heap) : Json → Val → ℕ → ℕ → Prop
  | .null, v, _, _ => v = .null
  | .bool b, v, _, _ => v = .bool b
  | .num n, v, _, _ => v = .num n
  | .str s, v, _, _ => v = .str s
  | .arr js, v, lo, hi => ∃ addr vs, v = .ref addr ∧ h[addr]? = some (.list vs) ∧
      lo ≤ addr ∧ addr < hi ∧ TreeElems h js vs lo addr
  | .obj js, v, lo, hi => ∃ addr ms, v = .ref addr ∧ h[addr]? = some (.dict ms) ∧
      lo ≤ addr ∧ addr < hi ∧ TreeMembers h js ms lo addr

def TreeElems (h : Heap) : List Json → List Val → ℕ → ℕ → Prop
  | [], vs, _, _ => vs = []
  | j :: js, vs, lo, hi => ∃ v rest mid, vs = v :: rest ∧ lo ≤ mid ∧ mid ≤ hi ∧
      Tree h j v lo mid ∧ TreeElems h js rest mid hi

def TreeMembers (h : Heap) : List (String × Json) → List (String × Val) → ℕ → ℕ → Prop
  | [], ms, _, _ => ms = []
  | (key, j) :: js, ms, lo, hi => ∃ v rest mid, ms = (key, v) :: rest ∧ lo ≤ mid ∧ mid ≤ hi ∧
      Tree h j v lo mid ∧ TreeMembers h js rest mid hi

end

mutual

/-- A tree is still there when the cells of its range are. -/
theorem Tree.mono : ∀ (j : Json) {v : Val} {lo hi lo' hi' : ℕ}, Tree h j v lo hi →
    (∀ addr, lo ≤ addr → addr < hi → h'[addr]? = h[addr]?) → lo' ≤ lo → hi ≤ hi' →
    Tree h' j v lo' hi'
  | .null, _, _, _, _, _, ht, _, _, _ => ht
  | .bool _, _, _, _, _, _, ht, _, _, _ => ht
  | .num _, _, _, _, _, _, ht, _, _, _ => ht
  | .str _, _, _, _, _, _, ht, _, _, _ => ht
  | .arr js, _, lo, hi, lo', hi', ht, hsame, hlo, hhi => by
    obtain ⟨addr, vs, rfl, hcell, hle, hlt, hjs⟩ := ht
    have hbelow : ∀ a, lo ≤ a → a < addr → h'[a]? = h[a]? :=
      fun a h1 h2 => hsame a h1 (by omega)
    exact ⟨addr, vs, rfl, (hsame addr hle hlt).trans hcell, by omega, by omega,
      TreeElems.mono js hjs hbelow hlo le_rfl⟩
  | .obj js, _, lo, hi, lo', hi', ht, hsame, hlo, hhi => by
    obtain ⟨addr, ms, rfl, hcell, hle, hlt, hjs⟩ := ht
    have hbelow : ∀ a, lo ≤ a → a < addr → h'[a]? = h[a]? :=
      fun a h1 h2 => hsame a h1 (by omega)
    exact ⟨addr, ms, rfl, (hsame addr hle hlt).trans hcell, by omega, by omega,
      TreeMembers.mono js hjs hbelow hlo le_rfl⟩

theorem TreeElems.mono : ∀ (js : List Json) {vs : List Val} {lo hi lo' hi' : ℕ},
    TreeElems h js vs lo hi → (∀ addr, lo ≤ addr → addr < hi → h'[addr]? = h[addr]?) →
    lo' ≤ lo → hi ≤ hi' → TreeElems h' js vs lo' hi'
  | [], _, _, _, _, _, ht, _, _, _ => ht
  | j :: js, _, lo, hi, lo', hi', ht, hsame, hlo, hhi => by
    obtain ⟨v, rest, mid, rfl, hle, hlt, hj, hjs⟩ := ht
    have hleft : ∀ a, lo ≤ a → a < mid → h'[a]? = h[a]? := fun a h1 h2 => hsame a h1 (by omega)
    have hright : ∀ a, mid ≤ a → a < hi → h'[a]? = h[a]? := fun a h1 h2 => hsame a (by omega) h2
    exact ⟨v, rest, mid, rfl, by omega, by omega, Tree.mono j hj hleft hlo le_rfl,
      TreeElems.mono js hjs hright le_rfl hhi⟩

theorem TreeMembers.mono : ∀ (js : List (String × Json)) {ms : List (String × Val)}
    {lo hi lo' hi' : ℕ}, TreeMembers h js ms lo hi →
    (∀ addr, lo ≤ addr → addr < hi → h'[addr]? = h[addr]?) → lo' ≤ lo → hi ≤ hi' →
    TreeMembers h' js ms lo' hi'
  | [], _, _, _, _, _, ht, _, _, _ => ht
  | (key, j) :: js, _, lo, hi, lo', hi', ht, hsame, hlo, hhi => by
    obtain ⟨v, rest, mid, rfl, hle, hlt, hj, hjs⟩ := ht
    have hleft : ∀ a, lo ≤ a → a < mid → h'[a]? = h[a]? := fun a h1 h2 => hsame a h1 (by omega)
    have hright : ∀ a, mid ≤ a → a < hi → h'[a]? = h[a]? := fun a h1 h2 => hsame a (by omega) h2
    exact ⟨v, rest, mid, rfl, by omega, by omega, Tree.mono j hj hleft hlo le_rfl,
      TreeMembers.mono js hjs hright le_rfl hhi⟩

end

mutual

/-- A tree stands for its value. -/
theorem Tree.holds : ∀ (j : Json) {v : Val} {lo hi : ℕ}, Tree h j v lo hi → Holds h j v
  | .null, _, _, _, ht => ht
  | .bool _, _, _, _, ht => ht
  | .num _, _, _, _, ht => ht
  | .str _, _, _, _, ht => ht
  | .arr js, _, _, _, ht => by
    obtain ⟨addr, vs, rfl, hcell, -, -, hjs⟩ := ht
    exact ⟨addr, vs, rfl, hcell, TreeElems.holds js hjs⟩
  | .obj js, _, _, _, ht => by
    obtain ⟨addr, ms, rfl, hcell, -, -, hjs⟩ := ht
    exact ⟨addr, ms, rfl, hcell, TreeMembers.holds js hjs⟩

theorem TreeElems.holds : ∀ (js : List Json) {vs : List Val} {lo hi : ℕ},
    TreeElems h js vs lo hi → HoldsElems h js vs
  | [], _, _, _, ht => ht
  | j :: js, _, _, _, ht => by
    obtain ⟨v, rest, mid, rfl, -, -, hj, hjs⟩ := ht
    exact ⟨v, rest, rfl, Tree.holds j hj, TreeElems.holds js hjs⟩

theorem TreeMembers.holds : ∀ (js : List (String × Json)) {ms : List (String × Val)} {lo hi : ℕ},
    TreeMembers h js ms lo hi → HoldsMembers h js ms
  | [], _, _, _, ht => ht
  | (key, j) :: js, _, _, _, ht => by
    obtain ⟨v, rest, mid, rfl, -, -, hj, hjs⟩ := ht
    exact ⟨v, rest, rfl, Tree.holds j hj, TreeMembers.holds js hjs⟩

end

/-! ## Old objects stay -/

theorem getElem?_old (hpre : h <+: h') {addr : ℕ} (hlt : addr < h.length) :
    h'[addr]? = h[addr]? := by
  rw [List.getElem?_eq_getElem hlt]
  exact List.prefix_iff_getElem?.1 hpre addr hlt

theorem getElem?_kept (hpre : h <+: h') {addr : ℕ} {cell : Cell}
    (hcell : h[addr]? = some cell) : h'[addr]? = some cell := by
  have hlt : addr < h.length := (List.getElem?_eq_some_iff.1 hcell).1
  exact (getElem?_old hpre hlt).trans hcell

mutual

/-- New objects change no value that was there. -/
theorem Holds.mono (hpre : h <+: h') : ∀ (j : Json) {v : Val}, Holds h j v → Holds h' j v
  | .null, _, hj => hj
  | .bool _, _, hj => hj
  | .num _, _, hj => hj
  | .str _, _, hj => hj
  | .arr js, _, hj => by
    obtain ⟨addr, vs, rfl, hcell, hjs⟩ := hj
    exact ⟨addr, vs, rfl, getElem?_kept hpre hcell, HoldsElems.mono hpre js hjs⟩
  | .obj js, _, hj => by
    obtain ⟨addr, ms, rfl, hcell, hjs⟩ := hj
    exact ⟨addr, ms, rfl, getElem?_kept hpre hcell, HoldsMembers.mono hpre js hjs⟩

theorem HoldsElems.mono (hpre : h <+: h') : ∀ (js : List Json) {vs : List Val},
    HoldsElems h js vs → HoldsElems h' js vs
  | [], _, hjs => hjs
  | j :: js, _, hjs => by
    obtain ⟨v, rest, rfl, hj, hjs⟩ := hjs
    exact ⟨v, rest, rfl, Holds.mono hpre j hj, HoldsElems.mono hpre js hjs⟩

theorem HoldsMembers.mono (hpre : h <+: h') : ∀ (js : List (String × Json))
    {ms : List (String × Val)}, HoldsMembers h js ms → HoldsMembers h' js ms
  | [], _, hjs => hjs
  | (key, j) :: js, _, hjs => by
    obtain ⟨v, rest, rfl, hj, hjs⟩ := hjs
    exact ⟨v, rest, rfl, Holds.mono hpre j hj, HoldsMembers.mono hpre js hjs⟩

end

theorem Tree.grow (ht : Tree h j v lo hi) (hpre : h <+: h') (hhi : hi ≤ h.length) :
    Tree h' j v lo hi :=
  Tree.mono j ht (fun _ _ hlt => getElem?_old hpre (by omega)) le_rfl le_rfl

theorem TreeElems.grow {elems : List Json} {vs : List Val} (ht : TreeElems h elems vs lo hi)
    (hpre : h <+: h') (hhi : hi ≤ h.length) : TreeElems h' elems vs lo hi :=
  TreeElems.mono elems ht (fun _ _ hlt => getElem?_old hpre (by omega)) le_rfl le_rfl

theorem TreeMembers.grow (ht : TreeMembers h js ms lo hi) (hpre : h <+: h')
    (hhi : hi ≤ h.length) : TreeMembers h' js ms lo hi :=
  TreeMembers.mono js ht (fun _ _ hlt => getElem?_old hpre (by omega)) le_rfl le_rfl

/-! ## Changes in place -/

/-- The same objects, and the same cells outside a range. -/
def AgreeOutside (lo hi : ℕ) (h h' : Heap) : Prop :=
  h'.length = h.length ∧ ∀ addr, addr < lo ∨ hi ≤ addr → h'[addr]? = h[addr]?

theorem AgreeOutside.refl (lo hi : ℕ) (h : Heap) : AgreeOutside lo hi h h :=
  ⟨rfl, fun _ _ => rfl⟩

theorem AgreeOutside.trans (h₁ : AgreeOutside lo hi h h') (h₂ : AgreeOutside lo hi h' h'') :
    AgreeOutside lo hi h h'' :=
  ⟨h₂.1.trans h₁.1, fun addr ha => (h₂.2 addr ha).trans (h₁.2 addr ha)⟩

theorem AgreeOutside.mono (h₁ : AgreeOutside lo hi h h') (hlo : lo' ≤ lo) (hhi : hi ≤ hi') :
    AgreeOutside lo' hi' h h' :=
  ⟨h₁.1, fun addr ha => h₁.2 addr (by omega)⟩

/-- Changes above the old objects leave them as they are. -/
theorem AgreeOutside.keeps (hpre : h <+: h') (hout : AgreeOutside lo hi h' h'')
    (hlo : h.length ≤ lo) : h <+: h'' := by
  rw [List.prefix_iff_getElem?] at hpre ⊢
  intro addr hlt
  have hsame : h''[addr]? = h'[addr]? := hout.2 addr (.inl (by omega))
  rw [hsame]
  exact hpre addr hlt

theorem TreeMembers.lookup_none {js : List (String × Json)} :
    ∀ {ms : List (String × Val)} {lo : ℕ}, TreeMembers h js ms lo hi →
      js.lookup key = none → ms.lookup key = none := by
  induction js with
  | nil =>
    intro ms lo ht _
    rw [show ms = [] from ht]
    rfl
  | cons m js ih =>
    obtain ⟨k, j⟩ := m
    intro ms lo ht hnone
    obtain ⟨v, rest, mid, rfl, -, -, -, hjs⟩ := ht
    by_cases hk : key = k
    · simp [hk] at hnone
    · rw [List.lookup_cons, beq_false_of_ne hk] at hnone ⊢
      exact ih hjs hnone

/-- **The value of one member** is a tree in a range of its own, and can be changed there in
place. -/
theorem TreeMembers.focus {js : List (String × Json)} {j : Json} :
    ∀ {ms : List (String × Val)} {lo : ℕ}, TreeMembers h js ms lo hi → js.lookup key = some j →
      ∃ v l r, ms.lookup key = some v ∧ lo ≤ l ∧ r ≤ hi ∧ Tree h j v l r ∧
        ∀ h' j', AgreeOutside l r h h' → Tree h' j' v l r →
          TreeMembers h' (Json.setMember key j' js) ms lo hi := by
  induction js with
  | nil =>
    intro ms lo _ hsome
    cases hsome
  | cons m js ih =>
    obtain ⟨k, i⟩ := m
    intro ms lo ht hsome
    obtain ⟨v, rest, mid, rfl, hle, hlt, hi, hjs⟩ := ht
    by_cases hk : key = k
    · -- the first member of that name
      subst hk
      rw [List.lookup_cons, beq_self_eq_true] at hsome
      obtain rfl := Option.some.inj hsome
      refine ⟨v, lo, mid, by simp, le_rfl, hlt, hi, fun h' j' hout hj' => ?_⟩
      have hrest : TreeMembers h' js rest mid _ :=
        TreeMembers.mono js hjs (fun a h1 _ => hout.2 a (.inr h1)) le_rfl le_rfl
      rw [Json.setMember, if_pos rfl]
      exact ⟨v, rest, mid, rfl, hle, hlt, hj', hrest⟩
    · rw [List.lookup_cons, beq_false_of_ne hk] at hsome
      obtain ⟨w, l, r, hw, hl, hr, hj, hset⟩ := ih hjs hsome
      refine ⟨w, l, r, ?_, hle.trans hl, hr, hj, fun h' j' hout hj' => ?_⟩
      · rw [List.lookup_cons, beq_false_of_ne hk]
        exact hw
      · have hfirst : Tree h' i v lo mid :=
          Tree.mono i hi (fun a _ h2 => hout.2 a (.inl (by omega))) le_rfl le_rfl
        rw [Json.setMember, if_neg (Ne.symm hk)]
        exact ⟨v, rest, mid, rfl, hle, hlt, hfirst, hset h' j' hout hj'⟩

theorem TreeMembers.erase {js : List (String × Json)} :
    ∀ {ms : List (String × Val)} {lo : ℕ}, TreeMembers h js ms lo hi →
      TreeMembers h (Json.eraseMember key js) (ms.filter fun m => m.1 ≠ key) lo hi := by
  induction js with
  | nil =>
    intro ms lo ht
    rw [show ms = [] from ht]
    rfl
  | cons m js ih =>
    obtain ⟨k, j⟩ := m
    intro ms lo ht
    obtain ⟨v, rest, mid, rfl, hle, hlt, hj, hjs⟩ := ht
    have hrest := ih hjs
    rw [Json.eraseMember] at hrest ⊢
    by_cases hk : k = key
    · rw [List.filter_cons_of_neg (by simp [hk]), List.filter_cons_of_neg (by simp [hk])]
      exact TreeMembers.mono _ hrest (fun _ _ _ => rfl) hle le_rfl
    · rw [List.filter_cons_of_pos (by simp [hk]), List.filter_cons_of_pos (by simp [hk])]
      exact ⟨v, _, mid, rfl, hle, hlt, hj, hrest⟩

/-- A cell of a tree that is written stays one object of it. -/
theorem agreeOutside_set {addr : ℕ} {cell : Cell} (hlo : lo ≤ addr) (hhi : addr < hi) :
    AgreeOutside lo hi h (h.set addr cell) := by
  refine ⟨List.length_set, fun a ha => ?_⟩
  rw [List.getElem?_set_ne (by omega)]

/-- **Removing a member in place.** -/
theorem Tree.pop {addr : ℕ} (ht : Tree h (.obj js) (.ref addr) lo hi) (key : String) :
    AgreeOutside lo hi h (h.pop addr key) ∧
      Tree (h.pop addr key) (.obj (Json.eraseMember key js)) (.ref addr) lo hi := by
  obtain ⟨a, ms, heq, hcell, hle, hlt, hjs⟩ := ht
  obtain rfl := Val.ref.inj heq
  have hpop : h.pop addr key = h.set addr (.dict (ms.filter fun m => m.1 ≠ key)) := by
    rw [Heap.pop, hcell]
  have hlen : addr < h.length := (List.getElem?_eq_some_iff.1 hcell).1
  have hbelow : ∀ b, lo ≤ b → b < addr →
      (h.set addr (.dict (ms.filter fun m => m.1 ≠ key)))[b]? = h[b]? :=
    fun b _ hb => List.getElem?_set_ne (by omega)
  rw [hpop]
  refine ⟨agreeOutside_set hle hlt, addr, _, rfl, List.getElem?_set_self hlen, hle, hlt, ?_⟩
  exact TreeMembers.mono _ hjs.erase hbelow le_rfl le_rfl

/-- Removing several. -/
theorem Tree.pops {addr : ℕ} (keys : List String) :
    ∀ {h : Heap} {js : List (String × Json)}, Tree h (.obj js) (.ref addr) lo hi →
      AgreeOutside lo hi h (h.pops addr keys) ∧
        Tree (h.pops addr keys) (.obj (Json.eraseMembers keys js)) (.ref addr) lo hi := by
  induction keys with
  | nil => exact fun ht => ⟨.refl lo hi _, ht⟩
  | cons key keys ih =>
    intro h js ht
    obtain ⟨hout, hone⟩ := ht.pop key
    obtain ⟨hrest, hall⟩ := ih hone
    exact ⟨hout.trans hrest, hall⟩

end Heap
