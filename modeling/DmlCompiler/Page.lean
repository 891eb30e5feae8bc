/-! # Pages

A page of a result: at most `limit` rows after the first `offset` ones.
-/
namespace DmlCompiler

structure Page where
  limit : Option UInt64
  offset : Option UInt64
deriving DecidableEq, Repr, Inhabited

namespace Page

/-- The page of `size` rows with the given index from zero. An offset beyond 64 bits is cut to the
greatest one. -/
def nth (index size : UInt64) : Page :=
  ⟨some size, some (.ofNat (min (index.toNat * size.toNat) (UInt64.size - 1)))⟩

def isEmpty (p : Page) : Bool := p.limit.isNone && p.offset.isNone

end Page
end DmlCompiler
