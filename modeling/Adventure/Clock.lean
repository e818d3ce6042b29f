/-! Moments in milliseconds. The clock stops at the last moment that 64 bits can name. -/
namespace Adventure

abbrev Moment := UInt64

namespace Moment

def last : Moment := 0xFFFFFFFFFFFFFFFF

/-- `ms` milliseconds after `now`. -/
def after (now ms : Moment) : Moment :=
  if now ≤ last - ms then now + ms else last

/-- The milliseconds from `now` to `due`, none if it is past. -/
def remaining (now due : Moment) : Moment :=
  if now ≤ due then due - now else 0

end Moment
end Adventure
