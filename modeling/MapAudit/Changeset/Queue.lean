import Std.Data.ExtHashSet

namespace MapAudit

structure IdQueue where
  /-- Oldest first. -/
  front : List Int64
  /-- Newest first; all of it is newer than `front`. -/
  back : List Int64
  members : Std.ExtHashSet Int64
  size : Nat
  mem_members : ∀ id, id ∈ members ↔ id ∈ front ++ back.reverse
  nodup : (front ++ back.reverse).Nodup
  size_eq : size = (front ++ back.reverse).length

namespace IdQueue

def toList (q : IdQueue) : List Int64 := q.front ++ q.back.reverse

def empty : IdQueue where
  front := []
  back := []
  members := ∅
  size := 0
  mem_members := by simp
  nodup := by simp
  size_eq := rfl

def contains (q : IdQueue) (id : Int64) : Bool := q.members.contains id

theorem contains_iff {q : IdQueue} {id : Int64} : q.contains id = true ↔ id ∈ q.toList := by
  rw [contains, ← Std.ExtHashSet.mem_iff_contains]
  exact q.mem_members id

def push (q : IdQueue) (id : Int64) (h : q.contains id = false) : IdQueue where
  front := q.front
  back := id :: q.back
  members := q.members.insert id
  size := q.size + 1
  mem_members x := by
    rw [Std.ExtHashSet.mem_insert, q.mem_members x]
    simp only [beq_iff_eq, List.reverse_cons, List.mem_append, List.mem_singleton]
    grind
  nodup := by
    have hn : id ∉ q.front ++ q.back.reverse := fun hm => by
      have := contains_iff.2 hm
      simp [h] at this
    have := q.nodup
    simp only [List.reverse_cons, ← List.append_assoc]
    exact List.nodup_append.2 ⟨this, by simp, by grind⟩
  size_eq := by
    have := q.size_eq
    simp only [List.reverse_cons, List.length_append, List.length_cons] at *
    simp at *
    omega

/-- Adds an id unless it is there already; a present id keeps its place. -/
def insert (q : IdQueue) (id : Int64) : IdQueue :=
  if h : q.contains id = false then q.push id h else q

def rotate (q : IdQueue) : IdQueue :=
  match h : q.front with
  | [] =>
    { front := q.back.reverse
      back := []
      members := q.members
      size := q.size
      mem_members := fun id => by simpa [h] using q.mem_members id
      nodup := by simpa [h] using q.nodup
      size_eq := by simpa [h] using q.size_eq }
  | _ :: _ => q

def pop? (q : IdQueue) : Option (Int64 × IdQueue) :=
  let q := q.rotate
  match h : q.front with
  | [] => none
  | id :: rest =>
    some (id,
      { front := rest
        back := q.back
        members := q.members.erase id
        size := q.size - 1
        mem_members := fun x => by
          have hm := q.mem_members x
          have hn := q.nodup
          rw [h] at hm hn
          rw [Std.ExtHashSet.mem_erase, hm]
          simp only [List.cons_append, List.nodup_cons] at hn
          simp only [List.cons_append, List.mem_cons, beq_eq_false_iff_ne]
          grind
        nodup := by
          have hn := q.nodup
          rw [h] at hn
          exact (List.nodup_cons.1 hn).2
        size_eq := by
          have := q.size_eq
          rw [h] at this
          simp only [List.cons_append, List.length_cons] at this
          omega })

end IdQueue

end MapAudit
