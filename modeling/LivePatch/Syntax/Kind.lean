/-!
# Kinds of tokens and nodes

One enumeration names every kind of token and every kind of tree node.  A kind has a printed name
and a number, its place in the enumeration; both are part of what the program shows.  Words that
are reserved only in some places (`var`, `where`, `record`, `get`, …) are plain identifiers here,
and the grammar tells them apart by their text.
-/

namespace LivePatch

/-- The kind of a token or of a tree node. -/
inductive Kind where
  -- Trivia: white space, comments and directive lines.
  | whitespace | lineComment | blockComment | docComment | preprocessorDirective
  -- Identifiers and literals.
  | identifier | intLiteral | realLiteral | charLiteral | stringLiteral
  | interpolatedStringLiteral
  -- Reserved words.
  | abstractKw | asKw | baseKw | boolKw | breakKw | byteKw | caseKw | catchKw | charKw
  | checkedKw | classKw | constKw | continueKw | decimalKw | defaultKw | delegateKw | doKw
  | doubleKw | elseKw | enumKw | eventKw | explicitKw | externKw | finallyKw | fixedKw | floatKw
  | forKw | foreachKw | gotoKw | ifKw | implicitKw | inKw | intKw | interfaceKw | internalKw
  | isKw | lockKw | longKw | namespaceKw | newKw | objectKw | operatorKw | outKw | overrideKw
  | paramsKw | privateKw | protectedKw | publicKw | readonlyKw | refKw | returnKw | sbyteKw
  | sealedKw | shortKw | sizeofKw | stackallocKw | staticKw | stringKw | structKw | switchKw
  | thisKw | throwKw | tryKw | typeofKw | uintKw | ulongKw | uncheckedKw | unsafeKw | ushortKw
  | usingKw | virtualKw | voidKw | volatileKw | whileKw | trueKw | falseKw | nullKw
  -- Brackets, separators and operators.
  | lParen | rParen | lBrace | rBrace | lBracket | rBracket | semicolon | comma | dot | question
  | questionDot | questionQuestion | questionQuestionEq | colon | doubleColon | fatArrow | plus
  | minus | star | slash | percent | tilde | bang | eq | eqEq | bangEq | less | lessEq | greater
  | greaterEq | amp | ampAmp | ampEq | pipe | pipePipe | pipeEq | caret | caretEq | plusPlus
  | minusMinus | plusEq | minusEq | starEq | slashEq | percentEq | leftShift | rightShift
  | leftShiftEq | rightShiftEq
  -- Text that is no token, and nodes around misplaced tokens; then the end of the text.
  | error | eof
  -- Roots, namespaces and what is shared by all declarations.
  | compilationUnit | expressionFragment | usingDirective | namespaceDeclaration | namespaceBody
  | attributeList | attributeUse | modifiers | name
  -- Type declarations and their parts.
  | classDeclaration | structDeclaration | interfaceDeclaration | recordDeclaration
  | enumDeclaration | delegateDeclaration | typeParameterList | typeParameter | baseList
  | typeConstraintClause | typeBody | enumBody | enumMember
  -- Members of a type and their parts.
  | fieldDeclaration | eventFieldDeclaration | eventDeclaration | methodDeclaration
  | constructorDeclaration | destructorDeclaration | propertyDeclaration | indexerDeclaration
  | operatorDeclaration | accessorList | accessorDeclaration | arrowExpressionClause
  | constructorInitializer | emptyDeclaration | parameterList | bracketedParameterList
  | parameter
  -- Statements and their parts.
  | block | labeledStatement | ifStatement | switchStatement | switchSection | switchLabel
  | forStatement | forHeader | forEachStatement | whileStatement | doStatement | lockStatement
  | usingStatement | tryStatement | catchClause | catchDeclaration | finallyClause
  | returnStatement | throwStatement | yieldStatement | breakStatement | continueStatement
  | gotoStatement | checkedStatement | unsafeStatement | localVariableDeclarationStatement
  | localFunctionStatement | expressionStatement | emptyStatement
  -- Variable declarations, shared by fields, locals, loops and resource statements.
  | variableDeclaration | variableDeclaratorList | variableDeclarator | whenClause
  -- Types.
  | type | predefinedType | namedType | tupleType | typeArgumentList
  -- Arguments.
  | argumentList | bracketedArgumentList | argument
  -- Expressions and patterns.
  | literalExpression | nameExpression | thisExpression | baseExpression
  | parenthesizedExpression | objectCreationExpression | arrayCreationExpression
  | initializerExpression | invocationExpression | memberAccessExpression
  | elementAccessExpression | prefixUnaryExpression | postfixUnaryExpression | awaitExpression
  | binaryExpression | assignmentExpression | conditionalExpression | lambdaExpression
  | castExpression | typeOfExpression | sizeOfExpression | defaultExpression | checkedExpression
  | tupleExpression | throwExpression | switchExpression | switchExpressionArm
  | declarationExpression | parenthesizedVariableDesignation | relationalPattern
deriving DecidableEq, Repr, Inhabited

namespace Kind

/-- The printed name of a kind. -/
def label : Kind → String
  | .whitespace => "Whitespace"
  | .lineComment => "LineComment"
  | .blockComment => "BlockComment"
  | .docComment => "DocComment"
  | .preprocessorDirective => "PreprocessorDirective"
  | .identifier => "Identifier"
  | .intLiteral => "IntLiteral"
  | .realLiteral => "RealLiteral"
  | .charLiteral => "CharLiteral"
  | .stringLiteral => "StringLiteral"
  | .interpolatedStringLiteral => "InterpolatedStringLiteral"
  | .abstractKw => "AbstractKw"
  | .asKw => "AsKw"
  | .baseKw => "BaseKw"
  | .boolKw => "BoolKw"
  | .breakKw => "BreakKw"
  | .byteKw => "ByteKw"
  | .caseKw => "CaseKw"
  | .catchKw => "CatchKw"
  | .charKw => "CharKw"
  | .checkedKw => "CheckedKw"
  | .classKw => "ClassKw"
  | .constKw => "ConstKw"
  | .continueKw => "ContinueKw"
  | .decimalKw => "DecimalKw"
  | .defaultKw => "DefaultKw"
  | .delegateKw => "DelegateKw"
  | .doKw => "DoKw"
  | .doubleKw => "DoubleKw"
  | .elseKw => "ElseKw"
  | .enumKw => "EnumKw"
  | .eventKw => "EventKw"
  | .explicitKw => "ExplicitKw"
  | .externKw => "ExternKw"
  | .finallyKw => "FinallyKw"
  | .fixedKw => "FixedKw"
  | .floatKw => "FloatKw"
  | .forKw => "ForKw"
  | .foreachKw => "ForeachKw"
  | .gotoKw => "GotoKw"
  | .ifKw => "IfKw"
  | .implicitKw => "ImplicitKw"
  | .inKw => "InKw"
  | .intKw => "IntKw"
  | .interfaceKw => "InterfaceKw"
  | .internalKw => "InternalKw"
  | .isKw => "IsKw"
  | .lockKw => "LockKw"
  | .longKw => "LongKw"
  | .namespaceKw => "NamespaceKw"
  | .newKw => "NewKw"
  | .objectKw => "ObjectKw"
  | .operatorKw => "OperatorKw"
  | .outKw => "OutKw"
  | .overrideKw => "OverrideKw"
  | .paramsKw => "ParamsKw"
  | .privateKw => "PrivateKw"
  | .protectedKw => "ProtectedKw"
  | .publicKw => "PublicKw"
  | .readonlyKw => "ReadonlyKw"
  | .refKw => "RefKw"
  | .returnKw => "ReturnKw"
  | .sbyteKw => "SbyteKw"
  | .sealedKw => "SealedKw"
  | .shortKw => "ShortKw"
  | .sizeofKw => "SizeofKw"
  | .stackallocKw => "StackallocKw"
  | .staticKw => "StaticKw"
  | .stringKw => "StringKw"
  | .structKw => "StructKw"
  | .switchKw => "SwitchKw"
  | .thisKw => "ThisKw"
  | .throwKw => "ThrowKw"
  | .tryKw => "TryKw"
  | .typeofKw => "TypeofKw"
  | .uintKw => "UintKw"
  | .ulongKw => "UlongKw"
  | .uncheckedKw => "UncheckedKw"
  | .unsafeKw => "UnsafeKw"
  | .ushortKw => "UshortKw"
  | .usingKw => "UsingKw"
  | .virtualKw => "VirtualKw"
  | .voidKw => "VoidKw"
  | .volatileKw => "VolatileKw"
  | .whileKw => "WhileKw"
  | .trueKw => "TrueKw"
  | .falseKw => "FalseKw"
  | .nullKw => "NullKw"
  | .lParen => "LParen"
  | .rParen => "RParen"
  | .lBrace => "LBrace"
  | .rBrace => "RBrace"
  | .lBracket => "LBracket"
  | .rBracket => "RBracket"
  | .semicolon => "Semicolon"
  | .comma => "Comma"
  | .dot => "Dot"
  | .question => "Question"
  | .questionDot => "QuestionDot"
  | .questionQuestion => "QuestionQuestion"
  | .questionQuestionEq => "QuestionQuestionEq"
  | .colon => "Colon"
  | .doubleColon => "DoubleColon"
  | .fatArrow => "FatArrow"
  | .plus => "Plus"
  | .minus => "Minus"
  | .star => "Star"
  | .slash => "Slash"
  | .percent => "Percent"
  | .tilde => "Tilde"
  | .bang => "Bang"
  | .eq => "Eq"
  | .eqEq => "EqEq"
  | .bangEq => "BangEq"
  | .less => "Less"
  | .lessEq => "LessEq"
  | .greater => "Greater"
  | .greaterEq => "GreaterEq"
  | .amp => "Amp"
  | .ampAmp => "AmpAmp"
  | .ampEq => "AmpEq"
  | .pipe => "Pipe"
  | .pipePipe => "PipePipe"
  | .pipeEq => "PipeEq"
  | .caret => "Caret"
  | .caretEq => "CaretEq"
  | .plusPlus => "PlusPlus"
  | .minusMinus => "MinusMinus"
  | .plusEq => "PlusEq"
  | .minusEq => "MinusEq"
  | .starEq => "StarEq"
  | .slashEq => "SlashEq"
  | .percentEq => "PercentEq"
  | .leftShift => "LeftShift"
  | .rightShift => "RightShift"
  | .leftShiftEq => "LeftShiftEq"
  | .rightShiftEq => "RightShiftEq"
  | .error => "Error"
  | .eof => "Eof"
  | .compilationUnit => "CompilationUnit"
  | .expressionFragment => "ExpressionFragment"
  | .usingDirective => "UsingDirective"
  | .namespaceDeclaration => "NamespaceDeclaration"
  | .namespaceBody => "NamespaceBody"
  | .attributeList => "AttributeList"
  | .attributeUse => "Attribute"
  | .modifiers => "Modifiers"
  | .name => "Name"
  | .classDeclaration => "ClassDeclaration"
  | .structDeclaration => "StructDeclaration"
  | .interfaceDeclaration => "InterfaceDeclaration"
  | .recordDeclaration => "RecordDeclaration"
  | .enumDeclaration => "EnumDeclaration"
  | .delegateDeclaration => "DelegateDeclaration"
  | .typeParameterList => "TypeParameterList"
  | .typeParameter => "TypeParameter"
  | .baseList => "BaseList"
  | .typeConstraintClause => "TypeConstraintClause"
  | .typeBody => "TypeBody"
  | .enumBody => "EnumBody"
  | .enumMember => "EnumMember"
  | .fieldDeclaration => "FieldDeclaration"
  | .eventFieldDeclaration => "EventFieldDeclaration"
  | .eventDeclaration => "EventDeclaration"
  | .methodDeclaration => "MethodDeclaration"
  | .constructorDeclaration => "ConstructorDeclaration"
  | .destructorDeclaration => "DestructorDeclaration"
  | .propertyDeclaration => "PropertyDeclaration"
  | .indexerDeclaration => "IndexerDeclaration"
  | .operatorDeclaration => "OperatorDeclaration"
  | .accessorList => "AccessorList"
  | .accessorDeclaration => "AccessorDeclaration"
  | .arrowExpressionClause => "ArrowExpressionClause"
  | .constructorInitializer => "ConstructorInitializer"
  | .emptyDeclaration => "EmptyDeclaration"
  | .parameterList => "ParameterList"
  | .bracketedParameterList => "BracketedParameterList"
  | .parameter => "Parameter"
  | .block => "Block"
  | .labeledStatement => "LabeledStatement"
  | .ifStatement => "IfStatement"
  | .switchStatement => "SwitchStatement"
  | .switchSection => "SwitchSection"
  | .switchLabel => "SwitchLabel"
  | .forStatement => "ForStatement"
  | .forHeader => "ForHeader"
  | .forEachStatement => "ForEachStatement"
  | .whileStatement => "WhileStatement"
  | .doStatement => "DoStatement"
  | .lockStatement => "LockStatement"
  | .usingStatement => "UsingStatement"
  | .tryStatement => "TryStatement"
  | .catchClause => "CatchClause"
  | .catchDeclaration => "CatchDeclaration"
  | .finallyClause => "FinallyClause"
  | .returnStatement => "ReturnStatement"
  | .throwStatement => "ThrowStatement"
  | .yieldStatement => "YieldStatement"
  | .breakStatement => "BreakStatement"
  | .continueStatement => "ContinueStatement"
  | .gotoStatement => "GotoStatement"
  | .checkedStatement => "CheckedStatement"
  | .unsafeStatement => "UnsafeStatement"
  | .localVariableDeclarationStatement => "LocalVariableDeclarationStatement"
  | .localFunctionStatement => "LocalFunctionStatement"
  | .expressionStatement => "ExpressionStatement"
  | .emptyStatement => "EmptyStatement"
  | .variableDeclaration => "VariableDeclaration"
  | .variableDeclaratorList => "VariableDeclaratorList"
  | .variableDeclarator => "VariableDeclarator"
  | .whenClause => "WhenClause"
  | .type => "Type"
  | .predefinedType => "PredefinedType"
  | .namedType => "NamedType"
  | .tupleType => "TupleType"
  | .typeArgumentList => "TypeArgumentList"
  | .argumentList => "ArgumentList"
  | .bracketedArgumentList => "BracketedArgumentList"
  | .argument => "Argument"
  | .literalExpression => "LiteralExpression"
  | .nameExpression => "NameExpression"
  | .thisExpression => "ThisExpression"
  | .baseExpression => "BaseExpression"
  | .parenthesizedExpression => "ParenthesizedExpression"
  | .objectCreationExpression => "ObjectCreationExpression"
  | .arrayCreationExpression => "ArrayCreationExpression"
  | .initializerExpression => "InitializerExpression"
  | .invocationExpression => "InvocationExpression"
  | .memberAccessExpression => "MemberAccessExpression"
  | .elementAccessExpression => "ElementAccessExpression"
  | .prefixUnaryExpression => "PrefixUnaryExpression"
  | .postfixUnaryExpression => "PostfixUnaryExpression"
  | .awaitExpression => "AwaitExpression"
  | .binaryExpression => "BinaryExpression"
  | .assignmentExpression => "AssignmentExpression"
  | .conditionalExpression => "ConditionalExpression"
  | .lambdaExpression => "LambdaExpression"
  | .castExpression => "CastExpression"
  | .typeOfExpression => "TypeOfExpression"
  | .sizeOfExpression => "SizeOfExpression"
  | .defaultExpression => "DefaultExpression"
  | .checkedExpression => "CheckedExpression"
  | .tupleExpression => "TupleExpression"
  | .throwExpression => "ThrowExpression"
  | .switchExpression => "SwitchExpression"
  | .switchExpressionArm => "SwitchExpressionArm"
  | .declarationExpression => "DeclarationExpression"
  | .parenthesizedVariableDesignation => "ParenthesizedVariableDesignation"
  | .relationalPattern => "RelationalPattern"

/-- All kinds, in the order of their numbers. -/
def all : List Kind := [
   .whitespace, .lineComment, .blockComment, .docComment, .preprocessorDirective, .identifier,
   .intLiteral, .realLiteral, .charLiteral, .stringLiteral, .interpolatedStringLiteral,
   .abstractKw, .asKw, .baseKw, .boolKw, .breakKw, .byteKw, .caseKw, .catchKw, .charKw,
   .checkedKw, .classKw, .constKw, .continueKw, .decimalKw, .defaultKw, .delegateKw, .doKw,
   .doubleKw, .elseKw, .enumKw, .eventKw, .explicitKw, .externKw, .finallyKw, .fixedKw, .floatKw,
   .forKw, .foreachKw, .gotoKw, .ifKw, .implicitKw, .inKw, .intKw, .interfaceKw, .internalKw,
   .isKw, .lockKw, .longKw, .namespaceKw, .newKw, .objectKw, .operatorKw, .outKw, .overrideKw,
   .paramsKw, .privateKw, .protectedKw, .publicKw, .readonlyKw, .refKw, .returnKw, .sbyteKw,
   .sealedKw, .shortKw, .sizeofKw, .stackallocKw, .staticKw, .stringKw, .structKw, .switchKw,
   .thisKw, .throwKw, .tryKw, .typeofKw, .uintKw, .ulongKw, .uncheckedKw, .unsafeKw, .ushortKw,
   .usingKw, .virtualKw, .voidKw, .volatileKw, .whileKw, .trueKw, .falseKw, .nullKw, .lParen,
   .rParen, .lBrace, .rBrace, .lBracket, .rBracket, .semicolon, .comma, .dot, .question,
   .questionDot, .questionQuestion, .questionQuestionEq, .colon, .doubleColon, .fatArrow, .plus,
   .minus, .star, .slash, .percent, .tilde, .bang, .eq, .eqEq, .bangEq, .less, .lessEq, .greater,
   .greaterEq, .amp, .ampAmp, .ampEq, .pipe, .pipePipe, .pipeEq, .caret, .caretEq, .plusPlus,
   .minusMinus, .plusEq, .minusEq, .starEq, .slashEq, .percentEq, .leftShift, .rightShift,
   .leftShiftEq, .rightShiftEq, .error, .eof, .compilationUnit, .expressionFragment,
   .usingDirective, .namespaceDeclaration, .namespaceBody, .attributeList, .attributeUse,
   .modifiers, .name, .classDeclaration, .structDeclaration, .interfaceDeclaration,
   .recordDeclaration, .enumDeclaration, .delegateDeclaration, .typeParameterList, .typeParameter,
   .baseList, .typeConstraintClause, .typeBody, .enumBody, .enumMember, .fieldDeclaration,
   .eventFieldDeclaration, .eventDeclaration, .methodDeclaration, .constructorDeclaration,
   .destructorDeclaration, .propertyDeclaration, .indexerDeclaration, .operatorDeclaration,
   .accessorList, .accessorDeclaration, .arrowExpressionClause, .constructorInitializer,
   .emptyDeclaration, .parameterList, .bracketedParameterList, .parameter, .block,
   .labeledStatement, .ifStatement, .switchStatement, .switchSection, .switchLabel, .forStatement,
   .forHeader, .forEachStatement, .whileStatement, .doStatement, .lockStatement, .usingStatement,
   .tryStatement, .catchClause, .catchDeclaration, .finallyClause, .returnStatement,
   .throwStatement, .yieldStatement, .breakStatement, .continueStatement, .gotoStatement,
   .checkedStatement, .unsafeStatement, .localVariableDeclarationStatement,
   .localFunctionStatement, .expressionStatement, .emptyStatement, .variableDeclaration,
   .variableDeclaratorList, .variableDeclarator, .whenClause, .type, .predefinedType, .namedType,
   .tupleType, .typeArgumentList, .argumentList, .bracketedArgumentList, .argument,
   .literalExpression, .nameExpression, .thisExpression, .baseExpression,
   .parenthesizedExpression, .objectCreationExpression, .arrayCreationExpression,
   .initializerExpression, .invocationExpression, .memberAccessExpression,
   .elementAccessExpression, .prefixUnaryExpression, .postfixUnaryExpression, .awaitExpression,
   .binaryExpression, .assignmentExpression, .conditionalExpression, .lambdaExpression,
   .castExpression, .typeOfExpression, .sizeOfExpression, .defaultExpression, .checkedExpression,
   .tupleExpression, .throwExpression, .switchExpression, .switchExpressionArm,
   .declarationExpression, .parenthesizedVariableDesignation, .relationalPattern]

/-- The number of a kind: its place in `all`. -/
def number (k : Kind) : Nat := k.ctorIdx

/-- The kind with number `n`; a number that names no kind stands for `error`. -/
def ofNumber (n : Nat) : Kind := all.getD n .error

/-- The kind with the printed name `text`. -/
def ofLabel? (text : String) : Option Kind := all.find? (·.label == text)

/-! ## Classes of kinds -/

/-- Tokens without meaning for the grammar: white space, comments and directive lines. -/
def isTrivia : Kind → Bool
  | .whitespace | .lineComment | .blockComment | .docComment | .preprocessorDirective => true
  | _ => false

/-- Reserved words, the literal ones included. -/
def isKeyword (k : Kind) : Bool :=
  abstractKw.number ≤ k.number && k.number ≤ nullKw.number

/-- Tokens that are an expression by themselves. -/
def isLiteral : Kind → Bool
  | .intLiteral | .realLiteral | .charLiteral | .stringLiteral | .interpolatedStringLiteral
  | .trueKw | .falseKw | .nullKw => true
  | _ => false

/-- Reserved words that may stand in front of a declaration. -/
def isModifier : Kind → Bool
  | .publicKw | .privateKw | .protectedKw | .internalKw | .staticKw | .abstractKw
  | .sealedKw | .virtualKw | .overrideKw | .readonlyKw | .constKw | .volatileKw | .externKw
  | .unsafeKw | .newKw | .eventKw | .fixedKw | .implicitKw | .explicitKw => true
  | _ => false

/-- Modifiers that say who may use a declaration; without one of them the default applies. -/
def isAccessModifier : Kind → Bool
  | .publicKw | .privateKw | .protectedKw | .internalKw => true
  | _ => false

/-- Reserved words that name a built-in type. -/
def isPredefinedType : Kind → Bool
  | .boolKw | .byteKw | .sbyteKw | .charKw | .decimalKw | .doubleKw | .floatKw | .intKw
  | .uintKw | .longKw | .ulongKw | .shortKw | .ushortKw | .objectKw | .stringKw => true
  | _ => false

/-- The assignment operator and the compound ones. -/
def isAssignmentOperator : Kind → Bool
  | .eq | .plusEq | .minusEq | .starEq | .slashEq | .percentEq | .ampEq | .pipeEq
  | .caretEq | .leftShiftEq | .rightShiftEq | .questionQuestionEq => true
  | _ => false

/-- Declarations of a type with members. -/
def isTypeDeclaration : Kind → Bool
  | .classDeclaration | .structDeclaration | .interfaceDeclaration | .recordDeclaration => true
  | _ => false

/-! ## Reserved words and punctuation -/

/-- The reserved words with their kinds. -/
def keywords : List (String × Kind) := [
   ("abstract", .abstractKw), ("as", .asKw), ("base", .baseKw), ("bool", .boolKw),
   ("break", .breakKw), ("byte", .byteKw), ("case", .caseKw), ("catch", .catchKw),
   ("char", .charKw), ("checked", .checkedKw), ("class", .classKw), ("const", .constKw),
   ("continue", .continueKw), ("decimal", .decimalKw), ("default", .defaultKw),
   ("delegate", .delegateKw), ("do", .doKw), ("double", .doubleKw), ("else", .elseKw),
   ("enum", .enumKw), ("event", .eventKw), ("explicit", .explicitKw), ("extern", .externKw),
   ("finally", .finallyKw), ("fixed", .fixedKw), ("float", .floatKw), ("for", .forKw),
   ("foreach", .foreachKw), ("goto", .gotoKw), ("if", .ifKw), ("implicit", .implicitKw),
   ("in", .inKw), ("int", .intKw), ("interface", .interfaceKw), ("internal", .internalKw),
   ("is", .isKw), ("lock", .lockKw), ("long", .longKw), ("namespace", .namespaceKw),
   ("new", .newKw), ("object", .objectKw), ("operator", .operatorKw), ("out", .outKw),
   ("override", .overrideKw), ("params", .paramsKw), ("private", .privateKw),
   ("protected", .protectedKw), ("public", .publicKw), ("readonly", .readonlyKw), ("ref", .refKw),
   ("return", .returnKw), ("sbyte", .sbyteKw), ("sealed", .sealedKw), ("short", .shortKw),
   ("sizeof", .sizeofKw), ("stackalloc", .stackallocKw), ("static", .staticKw),
   ("string", .stringKw), ("struct", .structKw), ("switch", .switchKw), ("this", .thisKw),
   ("throw", .throwKw), ("try", .tryKw), ("typeof", .typeofKw), ("uint", .uintKw),
   ("ulong", .ulongKw), ("unchecked", .uncheckedKw), ("unsafe", .unsafeKw), ("ushort", .ushortKw),
   ("using", .usingKw), ("virtual", .virtualKw), ("void", .voidKw), ("volatile", .volatileKw),
   ("while", .whileKw), ("true", .trueKw), ("false", .falseKw), ("null", .nullKw)]

/-- The kind of the reserved word `text`. -/
def ofKeyword? (text : String) : Option Kind := keywords.lookup text

/-- The punctuation marks with their kinds.  A mark stands after every longer one that it begins,
so the first that fits is the longest that fits. -/
def marks : List (String × Kind) := [
   (">>=", .rightShiftEq), ("<<=", .leftShiftEq), ("??=", .questionQuestionEq),
   ("::", .doubleColon), ("??", .questionQuestion), ("?.", .questionDot), ("==", .eqEq),
   ("=>", .fatArrow), ("!=", .bangEq), ("++", .plusPlus), ("+=", .plusEq), ("--", .minusMinus),
   ("-=", .minusEq), ("*=", .starEq), ("/=", .slashEq), ("%=", .percentEq), ("^=", .caretEq),
   ("&&", .ampAmp), ("&=", .ampEq), ("||", .pipePipe), ("|=", .pipeEq), ("<<", .leftShift),
   ("<=", .lessEq), (">>", .rightShift), (">=", .greaterEq), ("(", .lParen), (")", .rParen),
   ("\x7b", .lBrace), ("\x7d", .rBrace), ("[", .lBracket), ("]", .rBracket), (";", .semicolon),
   (",", .comma), (".", .dot), ("~", .tilde), (":", .colon), ("?", .question), ("=", .eq),
   ("!", .bang), ("+", .plus), ("-", .minus), ("*", .star), ("/", .slash), ("%", .percent),
   ("^", .caret), ("&", .amp), ("|", .pipe), ("<", .less), (">", .greater)]

end Kind

end LivePatch
