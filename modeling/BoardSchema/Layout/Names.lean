/-!
Names for padding. A pool counts upwards behind a stem and skips the names that are taken, so that a
name it hands out is new.
-/
namespace BoardSchema

structure NamePool where
  stem : String
  taken : List String := []
  next : Nat := 0
  deriving DecidableEq, Repr

namespace NamePool

def reserve (pool : NamePool) (name : String) : NamePool :=
  { pool with taken := name :: pool.taken }

def candidate (pool : NamePool) (number : Nat) : String := pool.stem ++ toString number

/-- The least number from `next` on whose name is free. One more candidate is tried than there are
names taken, so one of them is free. -/
def freeNumber (pool : NamePool) : Nat :=
  ((List.range' pool.next (pool.taken.length + 1)).find?
    fun number => !pool.taken.contains (pool.candidate number)).getD pool.next

/-- Hands out a name, which is taken from then on. -/
def take (pool : NamePool) : String × NamePool :=
  let number := pool.freeNumber
  let name := pool.candidate number
  (name, { pool with taken := name :: pool.taken, next := number + 1 })

end NamePool
end BoardSchema
