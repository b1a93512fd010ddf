import LambdaCalculus.Text.CombiningMark
import LambdaCalculus.Text.DefaultIgnorable
import LambdaCalculus.Text.Invisible

namespace LambdaCalculus.Text

def isPrintable (c : Char) : Bool :=
  !invisible.contains c && !defaultIgnorable.contains c && !combiningMarks.contains c

end LambdaCalculus.Text
