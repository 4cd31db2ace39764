import GhostText.Text.Blank

namespace GhostText.Replay

def fibonacci : Text :=
  ("def fibonacci(n):\n" ++
    "    a, b = 0, 1\n" ++
    "    for _ in range(n):\n" ++
    "        a, b = b, a + b\n" ++
    "    return a\n" ++
    "\n" ++
    "\n" ++
    "print(fibonacci(10))\n").toList

def todoList : Text :=
  ("const todos = [];\n" ++
    "\n" ++
    "function addTodo(title) \x7b\n" ++
    "  const todo = \x7b id: todos.length + 1, title, done: false \x7d;\n" ++
    "  todos.push(todo);\n" ++
    "  return todo;\n" ++
    "\x7d\n" ++
    "\n" ++
    "function toggle(id) \x7b\n" ++
    "  const todo = todos.find((t) => t.id === id);\n" ++
    "  if (todo) \x7b\n" ++
    "    todo.done = !todo.done;\n" ++
    "  \x7d\n" ++
    "\x7d\n").toList

inductive Sample
  | python
  | js
deriving DecidableEq, Repr

namespace Sample

def name : Sample → String
  | python => "python"
  | js     => "js"

def text : Sample → Text
  | python => fibonacci
  | js     => todoList

def ofName? (name : Text) : Option Sample :=
  [python, js].find? (·.name.toList = name)

end Sample
end GhostText.Replay
