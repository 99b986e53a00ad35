import Mathlib.Data.List.Infix
import Mathlib.Data.Option.Basic

/-!
# Paths in a linked tree

Nodes are linked by names, and a path is a list of names, innermost first, so that the parent of a
path is its tail. The links change while paths are held, and a path then leads elsewhere or nowhere.

* `resolve` — the node that a path leads to.
* `IsTree` — every node has one link to it at most, and the root has none: a node then has one path
  at most (`resolve_inj`).
* `Agree` — two families of links lead a path, and every beginning of it, to the same nodes.
* `agree_or_through` — **where a changed tree differs**: whatever a path leads to, either the path
  led there before, or it goes through a new link.
* `Covered` — something is to be done at a path or at a path above it. `Covered.expand` is the step
  of a walk that goes on from one path to those right beneath it.
-/

namespace Trees

variable {ι ν : Type*} {link link' : ι → ν → Option ι} {root i j : ι} {n : ν} {p q t : List ν}

/-- The node that a path leads to. Kind: D -/
def resolve (link : ι → ν → Option ι) (root : ι) : List ν → Option ι
  | [] => some root
  | n :: p => (resolve link root p).bind fun i => link i n

/-- Every node has one link to it at most, the root none. Kind: D -/
structure IsTree (link : ι → ν → Option ι) (root : ι) : Prop where
  unique : ∀ {i n j m k}, link i n = some k → link j m = some k → i = j ∧ n = m
  rootless : ∀ {i n}, link i n ≠ some root

/-- Both families of links lead every beginning of a path to the same node. Kind: D -/
def Agree (link link' : ι → ν → Option ι) (root : ι) (p : List ν) : Prop :=
  ∀ q, q <:+ p → resolve link' root q = resolve link root q

/-! ## Above and beneath -/

/-- A path is another, or is beneath one of those right beneath the other. Kind: L -/
theorem eq_or_cons_suffix (h : q <:+ p) : p = q ∨ ∃ n, n :: q <:+ p := by
  obtain ⟨l, rfl⟩ := h
  rcases List.eq_nil_or_concat l with rfl | ⟨l, n, rfl⟩
  · exact .inl (List.nil_append q)
  · exact .inr ⟨n, l, by rw [List.concat_append]⟩

/-- What is strictly above a path is above its parent. Kind: L -/
theorem suffix_tail_of_cons (h : n :: q <:+ p) : q <:+ p.tail := by
  cases p with
  | nil => exact (List.cons_ne_nil n q (List.suffix_nil.mp h)).elim
  | cons m p =>
      rcases List.suffix_cons_iff.mp h with heq | h
      · exact (List.cons.inj heq).2 ▸ List.suffix_rfl
      · exact (List.suffix_cons n q).trans h

/-! ## Resolving -/

/-- The empty path leads to the root. Kind: L -/
@[simp] theorem resolve_nil : resolve link root [] = some root := rfl

/-- A path leads to a child of what its parent leads to. Kind: L -/
theorem resolve_cons_eq_some :
    resolve link root (n :: p) = some i ↔ ∃ d, resolve link root p = some d ∧ link d n = some i := by
  rw [resolve, Option.bind_eq_some_iff]

/-- What is above a path that leads somewhere leads somewhere. Kind: L -/
theorem exists_resolve_of_suffix (h : resolve link root p = some i) (hq : q <:+ p) :
    ∃ j, resolve link root q = some j := by
  induction p generalizing i with
  | nil => exact ⟨i, by rw [List.suffix_nil.mp hq, h]⟩
  | cons n p ih =>
      rcases List.suffix_cons_iff.mp hq with rfl | hq
      · exact ⟨i, h⟩
      · obtain ⟨d, hd, -⟩ := resolve_cons_eq_some.mp h
        exact ih hd hq

/-- What is strictly above a path that leads somewhere has a child. Kind: L -/
theorem exists_child_of_suffix (h : resolve link root p = some i) (hq : n :: q <:+ p) :
    ∃ d k, resolve link root q = some d ∧ link d n = some k := by
  obtain ⟨k, hk⟩ := exists_resolve_of_suffix h hq
  obtain ⟨d, hd, hlink⟩ := resolve_cons_eq_some.mp hk
  exact ⟨d, k, hd, hlink⟩

/-- **In a tree a node has one path.** Kind: P -/
theorem resolve_inj (htree : IsTree link root) (hp : resolve link root p = some i)
    (hq : resolve link root q = some i) : p = q := by
  induction p generalizing q i with
  | nil =>
      cases q with
      | nil => rfl
      | cons m q =>
          obtain ⟨d, -, hlink⟩ := resolve_cons_eq_some.mp hq
          rw [resolve_nil, Option.some.injEq] at hp
          exact (htree.rootless (hp ▸ hlink)).elim
  | cons n p ih =>
      obtain ⟨d, hd, hlink⟩ := resolve_cons_eq_some.mp hp
      cases q with
      | nil =>
          rw [resolve_nil, Option.some.injEq] at hq
          exact (htree.rootless (hq ▸ hlink)).elim
      | cons m q =>
          obtain ⟨d', hd', hlink'⟩ := resolve_cons_eq_some.mp hq
          obtain ⟨rfl, rfl⟩ := htree.unique hlink hlink'
          rw [ih hd hd']

/-! ## Changed links -/

/-- What two families of links agree on, they agree on above it. Kind: L -/
theorem Agree.of_suffix (h : Agree link link' root p) (hq : q <:+ p) : Agree link link' root q :=
  fun t ht => h t (ht.trans hq)

/-- **Where a changed tree differs**: a path leads where it led before, as all above it do, or it
goes through a new link, above which nothing has changed. Kind: P -/
theorem agree_or_through {new : ι → ν → ι → Prop}
    (hnew : ∀ i n j, link' i n = some j → link i n = some j ∨ new i n j)
    (hp : resolve link' root p = some i) :
    Agree link link' root p ∨ ∃ n t d j, n :: t <:+ p ∧ Agree link link' root t ∧
      resolve link' root t = some d ∧ link' d n = some j ∧ new d n j := by
  induction p generalizing i with
  | nil =>
      refine .inl fun q hq => ?_
      rw [List.suffix_nil.mp hq, resolve_nil, resolve_nil]
  | cons m p ih =>
      obtain ⟨d, hd, hlink⟩ := resolve_cons_eq_some.mp hp
      rcases ih hd with hsame | ⟨n, t, e, j, ht, hrest⟩
      · rcases hnew d m i hlink with hold | hnew
        · refine .inl fun q hq => ?_
          rcases List.suffix_cons_iff.mp hq with rfl | hq
          · rw [hp, eq_comm, resolve_cons_eq_some]
            exact ⟨d, hsame p List.suffix_rfl ▸ hd, hold⟩
          · exact hsame q hq
        · exact .inr ⟨m, p, d, i, List.suffix_rfl, hsame, hd, hlink, hnew⟩
      · exact .inr ⟨n, t, e, j, ht.trans (List.suffix_cons m p), hrest⟩

/-- Without new links, a path leads where it led before. Kind: L -/
theorem agree_of_le (hle : ∀ i n j, link' i n = some j → link i n = some j)
    (hp : resolve link' root p = some i) : Agree link link' root p := by
  have hnew : ∀ i n j, link' i n = some j → link i n = some j ∨ False :=
    fun i n j h => .inl (hle i n j h)
  rcases agree_or_through hnew hp with h | ⟨n, t, d, j, -, -, -, -, hfalse⟩
  · exact h
  · exact hfalse.elim

/-! ## Something to do above -/

/-- Something is to be done at the path or above it. Kind: D -/
def Covered (todo : List ν → Prop) (p : List ν) : Prop :=
  ∃ q, q <:+ p ∧ todo q

variable {todo todo' : List ν → Prop}

/-- What covers a path covers what is beneath it. Kind: L -/
theorem Covered.of_suffix (h : Covered todo t) (ht : t <:+ p) : Covered todo p := by
  obtain ⟨q, hq, htodo⟩ := h
  exact ⟨q, hq.trans ht, htodo⟩

/-- What is still to be done still covers. Kind: L -/
theorem Covered.imp (h : Covered todo p) (himp : ∀ q, q <:+ p → todo q → todo' q) :
    Covered todo' p := by
  obtain ⟨q, hq, htodo⟩ := h
  exact ⟨q, hq, himp q hq htodo⟩

/-- **One step of a walk**: what was to be done at `q` is done there, and is now to be done right
beneath it. Every path but `q` stays covered. Kind: P -/
theorem Covered.expand (h : Covered todo p)
    (hkeep : ∀ t, t <:+ p → t ≠ q → todo t → todo' t)
    (hchild : todo q → ∀ n, n :: q <:+ p → todo' (n :: q)) : p = q ∨ Covered todo' p := by
  obtain ⟨t, ht, htodo⟩ := h
  by_cases htq : t = q
  · subst htq
    rcases eq_or_cons_suffix ht with rfl | ⟨n, hn⟩
    · exact .inl rfl
    · exact .inr ⟨n :: t, hn, hchild htodo n hn⟩
  · exact .inr ⟨t, ht, hkeep t ht htq htodo⟩

end Trees
