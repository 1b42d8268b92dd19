import CHomework.WordCounter.Sound

namespace CHomework.WordCounter

open CHomework.CString

theorem hmGet_put_self (m : HashMap) (key : CStr) (val : Int64) :
    hmGet (m.put key val) key = val := by
  rcases hfind : m.find key with _ | i
  · exact HashMap.hmGet_put_of_find_none hfind (HashMap.find_put_self hfind val)
  · exact HashMap.hmGet_put_of_find hfind hfind val

/-- On every path of `hm_set`, its search and the one of `hm_get` behind it end at
the same cell. -/
theorem hmGet_hmSet_self (stray : Nat → Item) (m : HashMap) (key : CStr) (val : Int64) :
    hmGet (hmSet stray m key val) key = val := by
  rw [hmSet_eq]
  exact hmGet_put_self _ key val

end CHomework.WordCounter
